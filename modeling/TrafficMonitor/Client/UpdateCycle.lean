import TrafficMonitor.Client.ApplyUpdate

/-!
# One update cycle of the client

`doOneCheckCycle` (`updater.cpp`) on Linux: it asks the server for an update, downloads the
binary and its signature into two pending files, verifies them, applies them and executes
itself again. What the server and the system answer is an input (`CycleIo`); the hash
function is a parameter, and removing a file succeeds.

Proved here:

* `cycle_outcome`: a cycle reports once, and a failed `execv` after `done` once more; it
  applies only what has the announced hash and verifies; an error before `execv` leaves the
  installed pair alone and none of the files that this cycle has downloaded, but for the
  signature of an update that could not be applied;
* `done_and_error`: the two reports, and the files that an error leaves from before.
-/

namespace TrafficMonitor.Updater

open Bytes Files Rollback

/-! ## Reading the response -/

/-- The text after the first `"key":`. -/
def afterKey (json key : Bytes) : Option Bytes :=
  findAfter (QUOTE :: key ++ [QUOTE, COLON]) json

def jsonBool (json key : Bytes) (dflt : Bool) : Bool :=
  match afterKey json key with
  | none => dflt
  | some rest =>
    let rest := rest.dropWhile fun c => c = SP || c = TAB
    if (stripPrefix (ascii "true") rest).isSome then true
    else if (stripPrefix (ascii "false") rest).isSome then false
    else dflt

/-- `std::strtoll(s, &end, 10)`: `none` when no digit is consumed; out of range gives the
nearest value. -/
def strtoll (s : Bytes) : Option Int :=
  let t := s.dropWhile isSpace
  let neg := t.head? = some 45
  let ds := (if t.head? = some 45 ∨ t.head? = some 43 then t.tail else t).takeWhile isDigit
  if ds = [] then none
  else
    let v := digitsValue ds
    some (if neg then -min v (2 ^ 63) else min v (2 ^ 63 - 1))

def jsonInt (json key : Bytes) (dflt : Int) : Int :=
  match afterKey json key with
  | none => dflt
  | some rest => (strtoll (rest.dropWhile fun c => c = SP || c = TAB)).getD dflt

/-- The string up to its closing quote; a backslash takes the next byte as it is. -/
def jsonStrBody : Bytes → Option Bytes
  | [] => none
  | [c] => if c = QUOTE then some [] else none
  | c :: d :: s =>
    if c = BACKSLASH then (jsonStrBody s).map (d :: ·)
    else if c = QUOTE then some []
    else (jsonStrBody (d :: s)).map (c :: ·)

/-- `http_util::jsonStr`: empty without the key or the closing quote. -/
def jsonStr (json key : Bytes) : Bytes :=
  ((findAfter (QUOTE :: key ++ [QUOTE, COLON, QUOTE]) json).bind jsonStrBody).getD []

def toText (n : Int) : Bytes :=
  if n < 0 then 45 :: decimal n.natAbs else decimal n.natAbs

/-! ## Downloads -/

/-- What a request answers: the status of the response (0: no connection), whether the file can
be opened, what each `SSL_read` gives and how much of it `fwrite` takes, and how much is in the
file once it is closed. -/
structure Download where
  status : Int
  fopen : Bool
  reads : List (Bytes × Nat)
  flushed : Nat
  mode : Nat

def kAbsoluteMaxBytes : Nat := 256 * 1024 * 1024

/-- The loop over the body: what has been written, and the result. -/
def streamBody (expectedSize : Int) (done : Bytes) : List (Bytes × Nat) → Bytes × Int
  | [] => (done, 200)
  | (buf, taken) :: reads =>
    if taken < buf.length then (done ++ buf.take taken, 0)
    else
      let done := done ++ buf
      if kAbsoluteMaxBytes < done.length then (done, 0)
      else if 0 < expectedSize && expectedSize ≤ done.length then (done, 200)
      else streamBody expectedSize done reads

def httpsGetToFile (d : Download) (path : Path) (expectedSize : Int) (dir : Dir) : Dir × Int :=
  if d.status ≠ 200 then (dir, d.status)
  else if !d.fopen then (dir, 0)
  else
    let (body, status) := streamBody expectedSize [] d.reads
    (write path ⟨body.take d.flushed, ((dir path).map File.mode).getD d.mode⟩ dir, status)

/-! ## The cycle -/

inductive UpdateTrigger
  | periodic
  | serverPush
  deriving DecidableEq

/-- The callbacks, the call of `applyUpdateLinux` with the pair it finds, and an `execv` that
replaces the process. -/
inductive Event
  | stage (name : Bytes)
  | error (stage msg : Bytes)
  | noop (reason : Bytes)
  | done (version : Bytes)
  | apply (pair : Rollback.Files)
  | exec
  deriving DecidableEq

def Event.isTerminal : Event → Bool
  | .error .. | .noop _ | .done _ => true
  | _ => false

/-- What the server and the system answer, and the state of the process. -/
structure CycleIo where
  inProgress : Bool
  exeDir : Bytes
  pubkeyHex : Bytes
  checkedAt : Int
  status : Int
  body : Bytes
  binary : Download
  hashable : Bool
  signature : Download
  readable : Path → Bool
  floor : Nat
  now : Int
  apply : ApplyIo
  argv : Bool
  execv : Bool

structure Cycle where
  dir : Dir
  lastCheck : Option Int
  log : List Event

namespace Cycle

def emit (ev : Event) (s : Cycle) : Cycle := { s with log := s.log ++ [ev] }

@[simp] theorem emit_dir (ev : Event) (s : Cycle) : (s.emit ev).dir = s.dir := rfl

def fail (paths : List Path) (stage : String) (msg : Bytes) (s : Cycle) : Cycle :=
  emit (.error (ascii stage) msg) { s with dir := paths.foldl (fun dir path => remove path dir) s.dir }

end Cycle

variable (e : Env) (sha256 : Bytes → Bytes) (io : CycleIo)

/-- The stage `restarting`; `execv` returns only if it fails. -/
def restarting (newVer : Bytes) (s : Cycle) : Cycle :=
  let s := (s.emit (.stage (ascii "restarting"))).emit (.done newVer)
  if io.argv && io.execv then s.emit .exec else s.fail [] "exec" (ascii "execv-failed")

def applying (newVer : Bytes) (s : Cycle) : Cycle :=
  let s := (s.emit (.stage (ascii "applying"))).emit (.apply (pendingPair s.dir))
  let (states, ok) := applyUpdateLinux io.apply s.dir
  let s := { s with dir := states.getLastD s.dir }
  if !ok then s.fail [.pending] "applying" (ascii "apply-failed") else restarting io newVer s

/-- `readVec`: an empty file is not read. -/
def readVec (path : Path) (dir : Dir) : Option Bytes :=
  if io.readable path then ((dir path).map File.bytes).filter (!·.isEmpty) else none

def verifyingSignature (newVer : Bytes) (s : Cycle) : Cycle :=
  let s := s.emit (.stage (ascii "verifying_signature"))
  match readVec io .pending s.dir, readVec io .pendingSig s.dir with
  | some binData, some sigData =>
    match verifyArtifactBytes e binData sigData (acceptPolicy io.floor io.now) with
    | .error sigVerErr => s.fail [.pending, .pendingSig] "verifying_signature" sigVerErr
    | .ok _ => applying io newVer s
  | _, _ => s.fail [.pending, .pendingSig] "verifying_signature" (ascii "io-read-error")

def downloadingSignature (newVer : Bytes) (s : Cycle) : Cycle :=
  let s := s.emit (.stage (ascii "downloading_signature"))
  let dir := remove .pendingSig s.dir
  let expectedSigSize := jsonInt io.body (ascii "sig_size") 0
  let (dir, sigStatus) := httpsGetToFile io.signature .pendingSig
    (if 0 < expectedSigSize then expectedSigSize else 10 * 1024 * 1024) dir
  let s := { s with dir }
  if sigStatus ≠ 200 then
    s.fail [.pending, .pendingSig] "downloading_signature" (ascii "http-" ++ toText sigStatus)
  else verifyingSignature e io newVer s

/-- `sha256FileHex` -/
def sha256FileHex (f : Option File) : Option Bytes :=
  if io.hashable then f.map fun f => hex (sha256 f.bytes) else none

def downloadingBinary (newVer announced : Bytes) (size : Int) (s : Cycle) : Cycle :=
  let dir := remove .pending s.dir
  let s := s.emit (.stage (ascii "downloading_binary"))
  let (dir, dlStatus) := httpsGetToFile io.binary .pending size dir
  let s := { s with dir }
  if dlStatus ≠ 200 then s.fail [.pending] "downloading_binary" (ascii "http-" ++ toText dlStatus)
  else
    let s := s.emit (.stage (ascii "verifying_sha256"))
    if sha256FileHex sha256 io (s.dir .pending) ≠ some announced then
      s.fail [.pending] "verifying_sha256" (ascii "hash-mismatch")
    else downloadingSignature e io newVer s

def kMaxUpdateBytes : Int := 64 * 1024 * 1024

def doOneCheckCycle (trigger : UpdateTrigger) (s : Cycle) : Cycle :=
  if io.inProgress then s.emit (.noop (ascii "in_progress"))
  else if io.exeDir.isEmpty then s.fail [] "network" (ascii "cannot-determine-exe-dir")
  else if io.pubkeyHex.isEmpty then s.fail [] "network" (ascii "cannot-derive-pubkey")
  else
    let s := s.emit (.stage (ascii "checking"))
    let s := if trigger = .periodic then { s with lastCheck := some io.checkedAt } else s
    if io.status = 0 then s.fail [] "network" (ascii "connection-error")
    else if io.status ≠ 200 then s.fail [] "network" (ascii "http-" ++ toText io.status)
    else if !jsonBool io.body (ascii "update_available") false then
      s.emit (.noop (ascii "no_update_available"))
    else
      let newVer := jsonStr io.body (ascii "version")
      let announced := jsonStr io.body (ascii "sha256")
      let size := jsonInt io.body (ascii "size") 0
      if newVer.isEmpty || announced.length ≠ 64 then
        s.fail [] "network" (ascii "malformed-check-response")
      else if kMaxUpdateBytes < size then s.fail [] "network" (ascii "size-cap-exceeded")
      else downloadingBinary e sha256 io newVer announced size s

/-! ## What a cycle reports -/

/-- The stage of an error, and what it leaves: the pending files of the stages before it are
gone. Nothing is said about the pending signature of an update that could not be applied. -/
inductive Leaves (dir dir' : Dir) : Bytes → Prop
  | network (h : dir' = dir) : Leaves dir dir' (ascii "network")
  | binary {stage : Bytes} (hs : stage = ascii "downloading_binary" ∨ stage = ascii "verifying_sha256")
      (h : dir' .pending = none) (h' : dir' .pendingSig = dir .pendingSig) : Leaves dir dir' stage
  | signature {stage : Bytes}
      (hs : stage = ascii "downloading_signature" ∨ stage = ascii "verifying_signature")
      (h : dir' .pending = none) (h' : dir' .pendingSig = none) : Leaves dir dir' stage
  | applying (h : dir' .pending = none) : Leaves dir dir' (ascii "applying")

def execFailed : Event := .error (ascii "exec") (ascii "execv-failed")

def Untouched (dir dir' : Dir) : Prop :=
  dir' .target = dir .target ∧ dir' .targetSig = dir .targetSig

/-- The pair has the announced hash and verifies under the floor of the process. -/
structure Accepted (pair : Rollback.Files) (binary bundle : Bytes) (v : Trust.Verified) :
    Prop where
  eq : pair = ⟨some binary, some bundle⟩
  hash : hex (sha256 binary) = jsonStr io.body (ascii "sha256")
  verified : verifyArtifactBytes e binary bundle (acceptPolicy io.floor io.now) = .ok v

/-- What holds of the events of a cycle on `dir` that leaves `dir'`. -/
structure Report (dir dir' : Dir) (evs : List Event) : Prop where
  once : (∃ ev, evs.filter Event.isTerminal = [ev] ∧
      ∀ v, ev = .done v → (io.argv && io.execv) = true) ∨
    ((io.argv && io.execv) = false ∧ ∃ v, evs.filter Event.isTerminal = [.done v, execFailed])
  applied : ∀ pair, .apply pair ∈ evs →
    ∃ binary bundle v, Accepted e sha256 io pair binary bundle v
  error : ∀ stage msg, .error stage msg ∈ evs → .error stage msg ≠ execFailed →
    Untouched dir dir' ∧ Leaves dir dir' stage

variable {e sha256 io} {dir dir' : Dir} {evs : List Event}

theorem Report.stage (h : Report e sha256 io dir dir' evs) (name : Bytes) :
    Report e sha256 io dir dir' (.stage name :: evs) where
  once := by simpa [Event.isTerminal] using h.once
  applied pair hm := h.applied pair (by simpa using hm)
  error stage msg hm := h.error stage msg (by simpa using hm)

theorem report_noop (reason : Bytes) : Report e sha256 io dir dir' [.noop reason] where
  once := .inl ⟨.noop reason, by simp [Event.isTerminal], by simp⟩
  applied pair hm := by simp at hm
  error stage msg hm := by simp at hm

theorem report_error {stage msg : Bytes} (hu : Untouched dir dir') (hl : Leaves dir dir' stage) :
    Report e sha256 io dir dir' [.error stage msg] where
  once := .inl ⟨.error stage msg, by simp [Event.isTerminal], by simp⟩
  applied pair hm := by simp at hm
  error stage' msg' hm := by
    simp only [List.mem_singleton, Event.error.injEq] at hm
    exact fun _ => ⟨hu, hm.1 ▸ hl⟩

/-- What the rest of a cycle on `dir` adds to the log. -/
def Ends (e : Env) (sha256 : Bytes → Bytes) (io : CycleIo) (dir : Dir) (log : List Event)
    (s' : Cycle) : Prop :=
  ∃ evs, s'.log = log ++ evs ∧ Report e sha256 io dir s'.dir evs

variable {s s' : Cycle} {log : List Event}

theorem Ends.stage (name : Bytes) (h : Ends e sha256 io dir (log ++ [.stage name]) s') :
    Ends e sha256 io dir log s' := by
  obtain ⟨evs, hlog, hr⟩ := h
  exact ⟨.stage name :: evs, by simpa using hlog, hr.stage name⟩

theorem Ends.apply {binary bundle : Bytes} {v : Trust.Verified} {pair : Rollback.Files}
    (ha : Accepted e sha256 io pair binary bundle v)
    (h : Ends e sha256 io dir (log ++ [.apply pair]) s') : Ends e sha256 io dir log s' := by
  obtain ⟨evs, hlog, hr⟩ := h
  refine ⟨.apply pair :: evs, by simpa using hlog, ?_, ?_, ?_⟩
  · simpa [Event.isTerminal] using hr.once
  · intro pair' hm
    rcases List.mem_cons.mp hm with hm | hm
    · cases hm
      exact ⟨binary, bundle, v, ha⟩
    · exact hr.applied pair' hm
  · exact fun stage msg hm => hr.error stage msg (by simpa using hm)

theorem ends_noop (reason : Bytes) : Ends e sha256 io dir s.log (s.emit (.noop reason)) :=
  ⟨_, rfl, report_noop reason⟩

theorem ends_fail {paths : List Path} {stage : String} {msg : Bytes}
    (hu : Untouched dir (s.fail paths stage msg).dir)
    (hl : Leaves dir (s.fail paths stage msg).dir (ascii stage)) :
    Ends e sha256 io dir s.log (s.fail paths stage msg) :=
  ⟨_, rfl, report_error hu hl⟩

/-- Nothing has been downloaded yet. -/
theorem ends_network {msg : Bytes} (h : s.dir = dir) :
    Ends e sha256 io dir s.log (s.fail [] "network" msg) :=
  ends_fail (h ▸ ⟨rfl, rfl⟩) (.network h)

/-! ## The stages, from the last to the first -/

theorem ends_restarting {newVer : Bytes} :
    Ends e sha256 io dir s.log (restarting io newVer s) := by
  cases hx : io.argv && io.execv with
  | true =>
    refine ⟨[.stage (ascii "restarting"), .done newVer, .exec],
      by simp [restarting, hx, Cycle.emit], ?_⟩
    exact ⟨.inl ⟨.done newVer, rfl, fun _ _ => hx⟩, by simp, by simp⟩
  | false =>
    refine ⟨[.stage (ascii "restarting"), .done newVer, execFailed],
      by simp [restarting, hx, Cycle.emit, Cycle.fail, execFailed], ?_⟩
    refine ⟨.inr ⟨hx, newVer, by simp [Event.isTerminal, execFailed]⟩, by simp [execFailed], ?_⟩
    intro stage msg hm hne
    simp only [List.mem_cons, List.not_mem_nil, or_false, reduceCtorEq, false_or] at hm
    exact absurd hm hne

theorem ends_applying {newVer binary bundle : Bytes} {v : Trust.Verified}
    (hu : Untouched dir s.dir) (ha : Accepted e sha256 io (pendingPair s.dir) binary bundle v) :
    Ends e sha256 io dir s.log (applying io newVer s) := by
  refine Ends.stage (ascii "applying") (Ends.apply ha ?_)
  unfold applying
  cases hok : (applyUpdateLinux io.apply s.dir).2 with
  | true =>
    simp only [Cycle.emit_dir, hok, Bool.not_true, Bool.false_eq_true, ↓reduceIte]
    exact ends_restarting
  | false =>
    simp only [Cycle.emit_dir, hok, Bool.not_false, ↓reduceIte]
    have hleft := applyUpdateLinux_failed hok
    refine ends_fail ⟨?_, ?_⟩ (.applying ?_)
    · simpa [Cycle.fail, Cycle.emit] using hleft.1.trans hu.1
    · simpa [Cycle.fail, Cycle.emit] using hleft.2.trans hu.2
    · simp [Cycle.fail, Cycle.emit]

/-- Both pending files are removed when the signature is refused. -/
theorem ends_signature {stage : String} {msg : Bytes} (hu : Untouched dir s.dir)
    (hs : stage = "downloading_signature" ∨ stage = "verifying_signature") :
    Ends e sha256 io dir s.log (s.fail [.pending, .pendingSig] stage msg) := by
  refine ends_fail ⟨?_, ?_⟩ (.signature ?_ ?_ ?_)
  · simpa [Cycle.fail, Cycle.emit] using hu.1
  · simpa [Cycle.fail, Cycle.emit] using hu.2
  · rcases hs with rfl | rfl
    · exact .inl rfl
    · exact .inr rfl
  · simp [Cycle.fail, Cycle.emit]
  · simp [Cycle.fail, Cycle.emit]

theorem readVec_eq_some {path : Path} {d : Dir} {bytes : Bytes}
    (h : readVec io path d = some bytes) : (d path).map File.bytes = some bytes := by
  unfold readVec at h
  split at h
  · exact (Option.filter_eq_some_iff.mp h).1
  · cases h

theorem ends_verifyingSignature {newVer : Bytes} (hu : Untouched dir s.dir)
    (hh : sha256FileHex sha256 io (s.dir .pending) = some (jsonStr io.body (ascii "sha256"))) :
    Ends e sha256 io dir s.log (verifyingSignature e io newVer s) := by
  refine Ends.stage (ascii "verifying_signature") ?_
  unfold verifyingSignature
  dsimp only
  split
  · rename_i binary bundle hb hs
    split
    · exact ends_signature hu (.inr rfl)
    · rename_i v hv
      have hb := readVec_eq_some hb
      have hs := readVec_eq_some hs
      refine ends_applying hu ⟨?_, ?_, hv⟩
      · exact congrArg₂ Rollback.Files.mk hb hs
      · unfold sha256FileHex at hh
        split at hh
        · obtain ⟨f, hf, hhex⟩ := Option.map_eq_some_iff.mp hh
          obtain ⟨f', hf', rfl⟩ := Option.map_eq_some_iff.mp hb
          cases hf.symm.trans hf'
          exact hhex
        · cases hh
  · exact ends_signature hu (.inr rfl)

/-- A download writes no file but its own. -/
theorem httpsGetToFile_ne {d : Download} {path other : Path} {size : Int} {f : Dir}
    (h : other ≠ path) : (httpsGetToFile d path size f).1 other = f other := by
  unfold httpsGetToFile
  split
  · rfl
  · split
    · rfl
    · exact write_ne h

theorem ends_downloadingSignature {newVer : Bytes} (hu : Untouched dir s.dir)
    (hh : sha256FileHex sha256 io (s.dir .pending) = some (jsonStr io.body (ascii "sha256"))) :
    Ends e sha256 io dir s.log (downloadingSignature e io newVer s) := by
  refine Ends.stage (ascii "downloading_signature") ?_
  unfold downloadingSignature
  dsimp only
  generalize (if 0 < jsonInt io.body (ascii "sig_size") 0 then
    jsonInt io.body (ascii "sig_size") 0 else 10 * 1024 * 1024) = size
  have hne (path : Path) (hp : path ≠ .pendingSig) :
      (httpsGetToFile io.signature .pendingSig size (remove .pendingSig s.dir)).1 path =
        s.dir path := by
    rw [httpsGetToFile_ne hp, remove_ne hp]
  have hu' : Untouched dir
      (httpsGetToFile io.signature .pendingSig size (remove .pendingSig s.dir)).1 :=
    ⟨(hne .target (by decide)).trans hu.1, (hne .targetSig (by decide)).trans hu.2⟩
  split
  · exact ends_signature hu' (.inl rfl)
  · refine ends_verifyingSignature hu' ?_
    exact (congrArg (sha256FileHex sha256 io) (hne .pending (by decide))).trans hh

theorem ends_downloadingBinary {newVer : Bytes} {size : Int} (h : s.dir = dir) :
    Ends e sha256 io dir s.log
      (downloadingBinary e sha256 io newVer (jsonStr io.body (ascii "sha256")) size s) := by
  have hne (path : Path) (hp : path ≠ .pending) :
      (httpsGetToFile io.binary .pending size (remove .pending s.dir)).1 path = dir path := by
    rw [httpsGetToFile_ne hp, remove_ne hp, h]
  have hfail {stage : String} {msg : Bytes} {log : List Event} {check : Option Int}
      (hs : stage = "downloading_binary" ∨ stage = "verifying_sha256") :
      Ends e sha256 io dir log (Cycle.fail [.pending] stage msg
        ⟨(httpsGetToFile io.binary .pending size (remove .pending s.dir)).1, check, log⟩) := by
    refine ends_fail ⟨?_, ?_⟩ (.binary ?_ ?_ ?_)
    · simpa [Cycle.fail, Cycle.emit] using hne .target (by decide)
    · simpa [Cycle.fail, Cycle.emit] using hne .targetSig (by decide)
    · rcases hs with rfl | rfl
      · exact .inl rfl
      · exact .inr rfl
    · simp [Cycle.fail, Cycle.emit]
    · simpa [Cycle.fail, Cycle.emit] using hne .pendingSig (by decide)
  refine Ends.stage (ascii "downloading_binary") ?_
  unfold downloadingBinary
  dsimp only
  split
  · exact hfail (.inl rfl)
  · refine Ends.stage (ascii "verifying_sha256") ?_
    split
    · exact hfail (.inr rfl)
    · rename_i hh
      exact ends_downloadingSignature ⟨hne .target (by decide), hne .targetSig (by decide)⟩
        (not_not.mp hh)

/-- **What a cycle does.** -/
theorem ends_doOneCheckCycle (trigger : UpdateTrigger) :
    Ends e sha256 io s.dir s.log (doOneCheckCycle e sha256 io trigger s) := by
  unfold doOneCheckCycle
  dsimp only
  split
  · exact ends_noop _
  split
  · exact ends_network rfl
  split
  · exact ends_network rfl
  refine Ends.stage (ascii "checking") ?_
  generalize hchecked : (if trigger = .periodic then
    { s.emit (.stage (ascii "checking")) with lastCheck := some io.checkedAt }
    else s.emit (.stage (ascii "checking"))) = s₁
  have hlog : s.log ++ [.stage (ascii "checking")] = s₁.log := by
    subst hchecked
    split <;> rfl
  have hdir : s₁.dir = s.dir := by
    subst hchecked
    split <;> rfl
  rw [hlog]
  split
  · exact ends_network hdir
  split
  · exact ends_network hdir
  split
  · exact ends_noop _
  split
  · exact ends_network hdir
  split
  · exact ends_network hdir
  · exact ends_downloadingBinary hdir

/-- **The outcome of a cycle.** It reports once, and a failed `execv` once more after `done`.
What it applies has the announced hash and verifies. An error before `execv` leaves the
installed pair alone, and says which of the pending files are gone. -/
theorem cycle_outcome (e : Env) (sha256 : Bytes → Bytes) (io : CycleIo) (trigger : UpdateTrigger)
    (dir : Dir) (lastCheck : Option Int) :
    let s := doOneCheckCycle e sha256 io trigger ⟨dir, lastCheck, []⟩
    Report e sha256 io dir s.dir s.log := by
  obtain ⟨evs, hlog, hr⟩ := ends_doOneCheckCycle trigger
  dsimp only at hlog ⊢
  rw [hlog]
  exact hr

/-! ## A cycle that reports twice -/

def sampleHash (b : Bytes) : Bytes := (b ++ List.replicate 32 0).take 32

/-- Version 1.2.3 is announced and downloaded; the process has no arguments for `execv`. -/
def sampleIo : CycleIo where
  inProgress := false
  exeDir := ascii "/opt/ntm"
  pubkeyHex := hex (List.replicate 32 7)
  checkedAt := 0
  status := 200
  body := ascii "\x7b\"update_available\": true,\"version\":\"1.2.3\",\"sha256\":\"" ++
    hex (sampleHash [5]) ++ ascii "\",\"size\":1,\"sig_size\":0\x7d"
  binary := ⟨200, true, [([5], 1)], 1, 0o644⟩
  hashable := true
  signature := ⟨200, true, [(signedBy [5], (signedBy [5]).length)], (signedBy [5]).length, 0o644⟩
  readable _ := true
  floor := 7
  now := 0
  apply := ⟨true, true, true, true⟩
  argv := false
  execv := false

/-- The update is reported as done and then as failed; and an error of the check, or of the
download of the binary, leaves the pending files of an earlier cycle. -/
theorem done_and_error :
    let cycle (io : CycleIo) : Cycle :=
      doOneCheckCycle sampleHost sampleHash io .periodic ⟨sampleDir, none, []⟩
    let unavailable := cycle { sampleIo with status := 503 }
    let notFound := cycle { sampleIo with binary := { sampleIo.binary with status := 404 } }
    (cycle sampleIo).log.filter Event.isTerminal = [.done (ascii "1.2.3"), execFailed] ∧
    unavailable.log.filter Event.isTerminal = [.error (ascii "network") (ascii "http-503")] ∧
    unavailable.dir .pending = sampleDir .pending ∧
    notFound.log.filter Event.isTerminal =
      [.error (ascii "downloading_binary") (ascii "http-404")] ∧
    notFound.dir .pendingSig = sampleDir .pendingSig := by
  decide +kernel

end TrafficMonitor.Updater
