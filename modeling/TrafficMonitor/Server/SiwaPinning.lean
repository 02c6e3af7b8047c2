import Mathlib.Tactic.Common
import TrafficMonitor.Basic.Runs
import TrafficMonitor.Server.SiwaAdmins

/-!
# Pins in memory and on disk

`matchAndPin` updates the identities under the lock and writes its snapshot outside it, so
the writers of several first logins are in flight at once: each truncates the file when it
opens it, and writes from its start, a buffer at a time. A restart loads what the file then
holds. Each update has a number; the writer of a snapshot is known by it.

A slower writer can replace a newer snapshot (`older_snapshot_reopens_pin`): after a
restart the email is pinned to another subject.

Proved here:

* `load_of_idle`: with no writer at work, the file holds the newest snapshot written to it;
* `kept_of_run`: when no writer opens or writes the file after a newer snapshot has been
  written, no restart comes while a writer has the file open and no text needs an escape,
  then no completed pin is replaced, neither in memory nor on disk.
-/

namespace TrafficMonitor.Siwa

open Bytes Runs

/-! ## The file and its writers -/

/-- Write `data` at position `off` of a file; a gap before it reads as zeros. -/
def writeAt (file : Bytes) (off : Nat) (data : Bytes) : Bytes :=
  file.take off ++ List.replicate (off - file.length) 0 ++ data ++ file.drop (off + data.length)

/-- A call of `saveSnapshot`; `pin` is the record that `matchAndPin` pinned before it, `none`
for the save of the constructor. -/
structure Writer where
  snap : List SiwaAdminIdentity
  pin : Option SiwaAdminIdentity
  opened : Bool := false
  written : Nat := 0

/-- A server process and its file. `updates` counts the snapshots taken, `newest` is the
number of the newest one of which something was written, and `completed` are the pins whose
write has completed. -/
structure Store where
  identities : List SiwaAdminIdentity
  writers : Nat → Option Writer
  file : Bytes
  updates : Nat
  newest : Nat
  completed : List SiwaAdminIdentity

inductive Action
  | matchAndPin (sub email : Bytes)
  | openFile (v : Nat)
  | openFails (v : Nat)
  | write (v n : Nat)
  | close (v : Nat)
  | restart (configEmails configSubs : Bytes)

/-- The constructor has returned: its save is not in flight. -/
def Store.serving (s : Store) : Bool :=
  (List.range (s.updates + 1)).all fun v => (s.writers v).all (·.pin.isSome)

/-- No writer has the file open. -/
def Store.idle (s : Store) : Bool :=
  (List.range (s.updates + 1)).all fun v => (s.writers v).all (!·.opened)

/-- The constructor up to its save: the identities are loaded, and the file is truncated. -/
def boot (file configEmails configSubs : Bytes) (v : Nat) (completed : List SiwaAdminIdentity) :
    Store where
  identities := construct file configEmails configSubs
  writers := Function.update (fun _ => none) v
    (some { snap := construct file configEmails configSubs, pin := none, opened := true })
  file := []
  updates := v
  newest := v
  completed

/-- The first start, on a file with this text. -/
def start (file configEmails configSubs : Bytes) : Store := boot file configEmails configSubs 0 []

/-- `verify` refuses a token without a subject, so `matchAndPin` gets none. -/
def Store.pin (s : Store) (sub email : Bytes) : Option Store :=
  if sub = [] ∨ s.serving = false then none
  else match toPin s.identities sub email with
    | none => some s
    | some (i, id) =>
      let snap := s.identities.set i id
      some { s with
        identities := snap
        writers := Function.update s.writers (s.updates + 1) (some { snap, pin := some id })
        updates := s.updates + 1 }

/-- `std::ofstream f(filePath, std::ios::trunc)` -/
def Store.openFile (s : Store) (v : Nat) : Option Store := do
  let w ← s.writers v
  if w.opened then none
  else some { s with
    writers := Function.update s.writers v (some { w with opened := true }), file := [] }

def Store.openFails (s : Store) (v : Nat) : Option Store := do
  let w ← s.writers v
  if w.opened then none else some { s with writers := Function.update s.writers v none }

/-- The stream hands up to `n` further bytes to the system. -/
def Store.write (s : Store) (v n : Nat) : Option Store := do
  let w ← s.writers v
  let data := ((snapshotText w.snap).drop w.written).take n
  if w.opened = false ∨ data = [] then none
  else some { s with
    writers := Function.update s.writers v (some { w with written := w.written + data.length })
    file := writeAt s.file w.written data
    newest := max s.newest v }

def Store.close (s : Store) (v : Nat) : Option Store := do
  let w ← s.writers v
  if w.opened = false ∨ w.written < (snapshotText w.snap).length then none
  else some { s with
    writers := Function.update s.writers v none, completed := w.pin.toList ++ s.completed }

def step (s : Store) : Action → Option Store
  | .matchAndPin sub email => s.pin sub email
  | .openFile v => s.openFile v
  | .openFails v => s.openFails v
  | .write v n => s.write v n
  | .close v => s.close v
  | .restart configEmails configSubs =>
    some (boot s.file configEmails configSubs (s.updates + 1) s.completed)

/-! ## The property -/

/-- No call of `matchAndPin` pins the email of a completed pin to another subject. -/
def NoRepin (s : Store) : Prop :=
  ∀ p ∈ s.completed, ∀ sub email i id,
    toPin s.identities sub email = some (i, id) → id.email = p.email → id.sub = p.sub

/-- When no writer has the file open, it has all completed pins. -/
def OnDisk (s : Store) : Prop :=
  s.idle = true → ∀ p ∈ s.completed, p ∈ load s.file

/-- What a step asks of the state before it. -/
def Guard (s : Store) : Action → Prop
  | .matchAndPin sub _ => Plain sub
  | .openFile v => s.newest ≤ v
  | .write v _ => s.newest ≤ v
  | .restart configEmails configSubs => s.idle = true ∧ PlainConfig configEmails configSubs
  | _ => True

instance decidableGuard (s : Store) (a : Action) : Decidable (Guard s a) := by
  cases a <;> unfold Guard <;> infer_instance

/-! ## Writing at a position -/

theorem length_writeAt {file data : Bytes} {off : Nat} (hd : data ≠ []) :
    (writeAt file off data).length = max file.length (off + data.length) := by
  have := List.length_pos_iff.mpr hd
  simp only [writeAt, List.length_append, List.length_take, List.length_replicate,
    List.length_drop]
  omega

/-- Going on at the end of what agrees with a text. -/
theorem take_writeAt {file text : Bytes} {off n : Nat} (hoff : off ≤ text.length)
    (h : file.take off = text.take off) :
    (writeAt file off ((text.drop off).take n)).take (off + ((text.drop off).take n).length) =
      text.take (off + ((text.drop off).take n).length) := by
  have hlen : off ≤ file.length := by
    have := congrArg List.length h
    simp only [List.length_take] at this
    omega
  have e : writeAt file off ((text.drop off).take n) =
      text.take off ++ (text.drop off).take n ++
        file.drop (off + ((text.drop off).take n).length) := by
    simp [writeAt, h, Nat.sub_eq_zero_of_le hlen]
  have hl : (text.take off ++ (text.drop off).take n).length =
      off + ((text.drop off).take n).length := by
    simp [Nat.min_eq_left hoff]
  rw [e, List.take_append_of_le_length hl.ge, List.take_of_length_le hl.le, ← List.take_add]
  simp only [List.length_take, List.length_drop]
  by_cases hn : n ≤ text.length - off
  · rw [Nat.min_eq_left hn]
  · rw [Nat.min_eq_right (by omega), List.take_of_length_le (by omega),
      List.take_of_length_le (by omega)]

/-! ## The invariant -/

/-- A record with an email and a subject, among the identities. -/
def Pinned (p : SiwaAdminIdentity) (ids : List SiwaAdminIdentity) : Prop :=
  p ∈ ids ∧ p.sub ≠ [] ∧ p.email ≠ []

theorem Pinned.keeps {p : SiwaAdminIdentity} {a b : List SiwaAdminIdentity} (h : Pinned p a)
    (hk : Keeps a b) : Pinned p b :=
  ⟨hk.mem h.1 h.2.1, h.2⟩

/-- `hist v` are the identities after update `v`, up to update `n`. -/
structure History (hist : Nat → List SiwaAdminIdentity) (n : Nat) : Prop where
  sound : ∀ v ≤ n, Sound (hist v)
  mono : ∀ v v', v ≤ v' → v' ≤ n → Keeps (hist v) (hist v')

/-- What holds of writer `v`. -/
structure WriterOk (hist : Nat → List SiwaAdminIdentity) (newest updates v : Nat) (w : Writer) :
    Prop where
  bound : v ≤ updates
  snap : w.snap = hist v
  fresh : newest < v → w.written = 0
  pinned : ∀ p, w.pin = some p → Pinned p w.snap

/-- What the file has of `text`, the newest snapshot written to it: `done` bytes, unless a
newer writer has truncated it since. -/
structure Disk (text : Bytes) (done : Nat) (file : Bytes) (newest : Nat)
    (writers : Nat → Option Writer) : Prop where
  done_le : done ≤ text.length
  short : file.length ≤ text.length
  current : ∀ w, writers newest = some w → w.opened = true ∧ w.written = done
  whole : writers newest = none → done = text.length
  begun : (∀ v w, writers v = some w → w.opened = true → v ≤ newest) →
    file.take done = text.take done

structure Inv (hist : Nat → List SiwaAdminIdentity) (done : Nat) (s : Store) : Prop where
  newest_le : s.newest ≤ s.updates
  last : hist s.updates = s.identities
  history : History hist s.updates
  writers : ∀ v w, s.writers v = some w → WriterOk hist s.newest s.updates v w
  completed : ∀ p ∈ s.completed, Pinned p (hist s.newest)
  disk : Disk (snapshotText (hist s.newest)) done s.file s.newest s.writers

theorem idle_iff {s : Store} :
    s.idle = true ↔ ∀ v ≤ s.updates, ∀ w, s.writers v = some w → w.opened = false := by
  simp only [Store.idle, List.all_eq_true, List.mem_range, Nat.lt_succ_iff, Option.all_eq_true,
    Bool.not_eq_true']

variable {hist : Nat → List SiwaAdminIdentity} {done : Nat} {s s' : Store}

theorem Inv.sound (h : Inv hist done s) : Sound s.identities :=
  h.last ▸ h.history.sound _ le_rfl

theorem Inv.keeps (h : Inv hist done s) {v : Nat} (hv : v ≤ s.updates) :
    Keeps (hist v) s.identities :=
  h.last ▸ h.history.mono v _ hv le_rfl

/-- **An idle file holds the newest snapshot written to it.** -/
theorem file_of_idle (h : Inv hist done s) (hi : s.idle = true) :
    s.file = snapshotText (hist s.newest) := by
  have hclosed : ∀ v w, s.writers v = some w → w.opened = false :=
    fun v w hw => idle_iff.mp hi v (h.writers v w hw).bound w hw
  have hnone : s.writers s.newest = none := by
    cases hw : s.writers s.newest with
    | none => rfl
    | some w => exact absurd (h.disk.current w hw).1 (by simp [hclosed _ w hw])
  have htake := h.disk.begun fun v w hw ho => absurd ho (by simp [hclosed v w hw])
  rw [h.disk.whole hnone, List.take_of_length_le h.disk.short, List.take_length] at htake
  exact htake

theorem load_of_idle (h : Inv hist done s) (hi : s.idle = true) :
    load s.file = (hist s.newest).filter (·.email ≠ []) := by
  rw [file_of_idle h hi, load_snapshotText (h.history.sound _ h.newest_le).written]

theorem mem_load_of_idle (h : Inv hist done s) (hi : s.idle = true) {p : SiwaAdminIdentity}
    (hp : Pinned p (hist s.newest)) : p ∈ load s.file := by
  rw [load_of_idle h hi]
  exact List.mem_filter.mpr ⟨hp.1, by simpa using hp.2.2⟩

theorem noRepin_of_inv (h : Inv hist done s) : NoRepin s := by
  intro p hp sub email i id hpin he
  obtain ⟨hmem, hs, -⟩ := (h.completed p hp).keeps (h.keeps h.newest_le)
  exact absurd he (toPin_email_ne h.sound hmem hs hpin)

/-! ## What a step preserves -/

theorem update_eq_some {f : Nat → Option Writer} {v v' : Nat} {o : Option Writer} {w : Writer} :
    Function.update f v o v' = some w ↔ v' = v ∧ o = some w ∨ v' ≠ v ∧ f v' = some w := by
  by_cases e : v' = v
  · subst e
    simp
  · simp [e]

/-- A writer that changes, or is new, and keeps what holds of it. -/
theorem writers_update {newest updates : Nat} {f : Nat → Option Writer}
    (h : ∀ v w, f v = some w → WriterOk hist newest updates v w) {v : Nat} {o : Option Writer}
    (ho : ∀ w, o = some w → WriterOk hist newest updates v w) :
    ∀ v' w, Function.update f v o v' = some w → WriterOk hist newest updates v' w := by
  intro v' w hw
  rcases update_eq_some.mp hw with ⟨rfl, e⟩ | ⟨-, hf⟩
  · exact ho w e
  · exact h v' w hf

theorem inv_boot {file configEmails configSubs : Bytes} (hf : Sound (load file))
    (hc : PlainConfig configEmails configSubs) (v : Nat) {completed : List SiwaAdminIdentity}
    (hp : ∀ p ∈ completed, Pinned p (load file)) :
    Inv (fun _ => construct file configEmails configSubs) 0
      (boot file configEmails configSubs v completed) where
  newest_le := le_rfl
  last := rfl
  history := ⟨fun _ _ => hf.construct hc, fun _ _ _ _ => Keeps.refl _⟩
  writers := by
    refine writers_update (fun _ _ hw => by cases hw) fun w hw => ?_
    obtain rfl := Option.some.inj hw
    exact ⟨le_rfl, rfl, fun _ => rfl, fun p hp => by cases hp⟩
  completed := fun p hmem => ⟨construct_mem (hp p hmem).1 _ _, (hp p hmem).2⟩
  disk := by
    refine ⟨Nat.zero_le _, Nat.zero_le _, fun w hw => ?_, fun hn => ?_, fun _ => rfl⟩
    · simp only [boot, Function.update_self, Option.some.injEq] at hw
      subst hw
      exact ⟨rfl, rfl⟩
    · simp [boot] at hn

/-- The history after one more update. -/
theorem History.snoc {n : Nat} (h : History hist n) {snap : List SiwaAdminIdentity}
    (hs : Sound snap) (hk : Keeps (hist n) snap) :
    History (Function.update hist (n + 1) snap) (n + 1) := by
  have hold : ∀ v ≤ n, Function.update hist (n + 1) snap v = hist v :=
    fun v hv => Function.update_of_ne (by omega) _ _
  constructor
  · intro v hv
    rcases Nat.le_succ_iff.mp hv with hv | rfl
    · rw [hold v hv]
      exact h.sound v hv
    · rwa [Function.update_self]
  · intro v v' hvv hv'
    rcases Nat.le_succ_iff.mp hv' with hv' | rfl
    · rw [hold v (hvv.trans hv'), hold v' hv']
      exact h.mono v v' hvv hv'
    · rw [Function.update_self]
      rcases Nat.le_succ_iff.mp hvv with hv | rfl
      · rw [hold v hv]
        exact (h.mono v n hv le_rfl).trans hk
      · rw [Function.update_self]
        exact Keeps.refl _

theorem inv_pin (h : Inv hist done s) {sub email : Bytes} (hp : Plain sub)
    (hs : s.pin sub email = some s') : ∃ hist', Inv hist' done s' := by
  unfold Store.pin at hs
  split at hs
  · cases hs
  next hserve =>
  split at hs
  · obtain rfl := Option.some.inj hs
    exact ⟨hist, h⟩
  next i id hpin =>
  obtain rfl := Option.some.inj hs
  obtain ⟨old, ho, hsub, hne, e⟩ := toPin_spec hpin
  have hkeep : Keeps s.identities (s.identities.set i id) :=
    Keeps.set ho hsub (by rw [e])
  have hmem : Pinned id (s.identities.set i id) := by
    rw [not_or] at hserve
    exact ⟨List.mem_set (List.getElem?_eq_some_iff.mp ho).1 _, e ▸ hserve.1, e ▸ hne⟩
  have hnew : s.newest ≠ s.updates + 1 := by
    have := h.newest_le
    omega
  have hold : ∀ v ≤ s.updates,
      Function.update hist (s.updates + 1) (s.identities.set i id) v = hist v :=
    fun v hv => Function.update_of_ne (by omega) _ _
  refine ⟨Function.update hist (s.updates + 1) (s.identities.set i id),
    h.newest_le.trans (Nat.le_succ _), Function.update_self _ _ _,
    h.history.snoc (h.sound.set hp hpin) (h.last ▸ hkeep), writers_update ?_ ?_, ?_, ?_⟩
  · intro v w hw
    obtain ⟨hb, hsnap, hfresh, hpinned⟩ := h.writers v w hw
    exact ⟨hb.trans (Nat.le_succ _), hsnap.trans (hold v hb).symm, hfresh, hpinned⟩
  · intro w hw
    obtain rfl := Option.some.inj hw
    refine ⟨le_rfl, by rw [Function.update_self], fun _ => rfl, fun p hpw => ?_⟩
    obtain rfl := Option.some.inj hpw
    exact hmem
  · intro p hpc
    rw [hold _ h.newest_le]
    exact h.completed p hpc
  · obtain ⟨hle, hshort, hcur, hwhole, hbegun⟩ := h.disk
    have hsame : ∀ o, Function.update s.writers (s.updates + 1) o s.newest = s.writers s.newest :=
      fun o => Function.update_of_ne hnew _ _
    rw [← hold _ h.newest_le] at hle hshort hwhole hbegun
    refine ⟨hle, hshort, fun w hw => hcur w ((hsame _).symm.trans hw),
      fun hn => hwhole ((hsame _).symm.trans hn), fun hopen => hbegun fun v w hw hwo => ?_⟩
    refine hopen v w (update_eq_some.mpr (.inr ⟨?_, hw⟩)) hwo
    have := (h.writers v w hw).bound
    omega

theorem inv_openFile (h : Inv hist done s) {v : Nat} (hv : s.newest ≤ v)
    (hs : s.openFile v = some s') : Inv hist done s' := by
  simp only [Store.openFile, Option.bind_eq_bind, Option.bind_eq_some_iff] at hs
  obtain ⟨w, hw, hs⟩ := hs
  split at hs
  · cases hs
  next hclosed =>
  obtain rfl := Option.some.inj hs
  have hne : s.newest ≠ v := fun e => hclosed (h.disk.current w (e ▸ hw)).1
  have hsame : ∀ o, Function.update s.writers v o s.newest = s.writers s.newest :=
    fun o => Function.update_of_ne hne _ _
  refine ⟨h.newest_le, h.last, h.history, writers_update h.writers ?_, h.completed,
    h.disk.done_le, Nat.zero_le _, fun w hw => h.disk.current w ((hsame _).symm.trans hw),
    fun hn => h.disk.whole ((hsame _).symm.trans hn), ?_⟩
  · intro w' hw'
    obtain rfl := Option.some.inj hw'
    obtain ⟨hb, hsnap, hfresh, hpinned⟩ := h.writers v w hw
    exact ⟨hb, hsnap, hfresh, hpinned⟩
  · intro hopen
    have hle := hopen v _ (update_eq_some.mpr (.inl ⟨rfl, rfl⟩)) rfl
    exact absurd (le_antisymm hv hle) hne

theorem inv_openFails (h : Inv hist done s) {v : Nat} (hs : s.openFails v = some s') :
    Inv hist done s' := by
  simp only [Store.openFails, Option.bind_eq_bind, Option.bind_eq_some_iff] at hs
  obtain ⟨w, hw, hs⟩ := hs
  split at hs
  · cases hs
  next hclosed =>
  obtain rfl := Option.some.inj hs
  have hne : s.newest ≠ v := fun e => hclosed (h.disk.current w (e ▸ hw)).1
  have hsame : Function.update s.writers v none s.newest = s.writers s.newest :=
    Function.update_of_ne hne _ _
  refine ⟨h.newest_le, h.last, h.history, writers_update h.writers (fun _ hn => by cases hn),
    h.completed, h.disk.done_le, h.disk.short, fun w hw => h.disk.current w (hsame.symm.trans hw),
    fun hn => h.disk.whole (hsame.symm.trans hn), fun hopen => h.disk.begun fun v' w' hw' ho' => ?_⟩
  refine hopen v' w' (update_eq_some.mpr (.inr ⟨?_, hw'⟩)) ho'
  rintro rfl
  rw [hw] at hw'
  obtain rfl := Option.some.inj hw'
  exact hclosed ho'

theorem writer_le_newest (h : Inv hist done s) {v : Nat} {w : Writer} (hw : s.writers v = some w)
    (hn : 0 < w.written) : v ≤ s.newest := by
  by_contra hlt
  have := (h.writers v w hw).fresh (by omega)
  omega

theorem inv_write (h : Inv hist done s) {v n : Nat} (hv : s.newest ≤ v)
    (hs : s.write v n = some s') : ∃ done', Inv hist done' s' := by
  simp only [Store.write, Option.bind_eq_bind, Option.bind_eq_some_iff] at hs
  obtain ⟨w, hw, hs⟩ := hs
  split at hs
  · cases hs
  next hgo =>
  rw [not_or, Bool.not_eq_false] at hgo
  obtain ⟨hopen, hdata⟩ := hgo
  obtain rfl := Option.some.inj hs
  have hok := h.writers v w hw
  rw [hok.snap] at hdata ⊢
  set text := snapshotText (hist v) with htext
  set data := (text.drop w.written).take n with hdef
  have hmax : max s.newest v = v := max_eq_right hv
  -- the writer of the newest snapshot goes on, or a newer one begins
  have hat : w.written ≤ text.length ∧ ((∀ v' w', s.writers v' = some w' → w'.opened = true →
      v' ≤ v) → s.file.take w.written = text.take w.written) := by
    rcases hv.eq_or_lt with rfl | hlt
    · obtain ⟨-, e⟩ := h.disk.current w hw
      rw [e]
      exact ⟨h.disk.done_le, h.disk.begun⟩
    · rw [hok.fresh hlt]
      exact ⟨Nat.zero_le _, fun _ => rfl⟩
  have hlen : w.written + data.length ≤ text.length := by
    simp only [hdef, List.length_take, List.length_drop]
    omega
  have hkeep : Keeps (hist s.newest) (hist v) := h.history.mono _ _ hv hok.bound
  refine ⟨w.written + data.length, by simpa [hmax] using hok.bound, h.last, h.history, ?_, ?_, ?_⟩
  · simp only [hmax]
    refine writers_update (fun v' w' hw' => ?_) fun w' hw' => ?_
    · obtain ⟨hb, hsnap, hfresh, hpinned⟩ := h.writers v' w' hw'
      exact ⟨hb, hsnap, fun hlt => hfresh (hv.trans_lt hlt), hpinned⟩
    · obtain rfl := Option.some.inj hw'
      exact ⟨hok.bound, rfl, fun hlt => absurd hlt (lt_irrefl v), hok.snap ▸ hok.pinned⟩
  · intro p hp
    simp only [hmax]
    exact (h.completed p hp).keeps hkeep
  · simp only [hmax]
    refine ⟨hlen, ?_, fun w' hw' => ?_, fun hn => ?_, fun ho => ?_⟩
    · rw [length_writeAt hdata]
      exact max_le (h.disk.short.trans (length_snapshotText_le hkeep)) hlen
    · rw [Function.update_self] at hw'
      obtain rfl := Option.some.inj hw'
      exact ⟨hopen, rfl⟩
    · rw [Function.update_self] at hn
      cases hn
    · refine take_writeAt hat.1 (hat.2 fun v' w' hw' ho' => ?_)
      by_cases e : v' = v
      · exact e.le
      · exact ho v' w' (update_eq_some.mpr (.inr ⟨e, hw'⟩)) ho'

theorem inv_close (h : Inv hist done s) {v : Nat} (hs : s.close v = some s') :
    Inv hist done s' := by
  simp only [Store.close, Option.bind_eq_bind, Option.bind_eq_some_iff] at hs
  obtain ⟨w, hw, hs⟩ := hs
  split at hs
  · cases hs
  next hgo =>
  rw [not_or, Nat.not_lt] at hgo
  obtain rfl := Option.some.inj hs
  have hok := h.writers v w hw
  have hpos : 0 < (snapshotText w.snap).length := by
    simp [snapshotText, ascii]
  have hle : v ≤ s.newest := writer_le_newest h hw (by omega)
  have hkeep : Keeps (hist v) (hist s.newest) := h.history.mono _ _ hle h.newest_le
  refine ⟨h.newest_le, h.last, h.history, writers_update h.writers (fun _ hn => by cases hn), ?_, ?_⟩
  · intro p hp
    rcases List.mem_append.mp hp with hp | hp
    · have := hok.pinned p (Option.mem_toList.mp hp)
      rw [hok.snap] at this
      exact this.keeps hkeep
    · exact h.completed p hp
  · refine ⟨h.disk.done_le, h.disk.short, fun w' hw' => ?_, fun hn => ?_, fun hopen => ?_⟩
    · rcases update_eq_some.mp hw' with ⟨-, e⟩ | ⟨-, hw'⟩
      · cases e
      · exact h.disk.current w' hw'
    · by_cases e : s.newest = v
      · subst e
        rw [hok.snap, (h.disk.current w hw).2] at hgo
        exact le_antisymm h.disk.done_le hgo.2
      · exact h.disk.whole ((Function.update_of_ne e _ _).symm.trans hn)
    · refine h.disk.begun fun v' w' hw' ho' => ?_
      by_cases e : v' = v
      · exact e.trans_le hle
      · exact hopen v' w' (update_eq_some.mpr (.inr ⟨e, hw'⟩)) ho'

/-- **Step lemma.** -/
theorem inv_step {a : Action} (h : Inv hist done s) (hg : Guard s a) (hs : step s a = some s') :
    ∃ hist' done', Inv hist' done' s' := by
  cases a with
  | matchAndPin sub email =>
    obtain ⟨hist', h'⟩ := inv_pin h hg hs
    exact ⟨hist', done, h'⟩
  | openFile v => exact ⟨hist, done, inv_openFile h hg hs⟩
  | openFails v => exact ⟨hist, done, inv_openFails h hs⟩
  | write v n =>
    obtain ⟨done', h'⟩ := inv_write h hg hs
    exact ⟨hist, done', h'⟩
  | close v => exact ⟨hist, done, inv_close h hs⟩
  | restart configEmails configSubs =>
    obtain rfl := Option.some.inj hs
    have hload : Sound (load s.file) := by
      rw [file_of_idle h hg.1]
      exact (h.history.sound _ h.newest_le).load_snapshotText
    exact ⟨_, _, inv_boot hload hg.2 _ fun p hp =>
      ⟨mem_load_of_idle h hg.1 (h.completed p hp), (h.completed p hp).2⟩⟩

/-- The configuration lists two admins. -/
def twoAdmins : Store := start [] (ascii "a@x,b@x") []

/-- Both log in for the first time; `v` and `v'` are the order in which the snapshots are
written. After a restart a third subject presents the second email. -/
def firstLogins (v v' : Nat) : List Action :=
  [.write 0 4096, .close 0, .matchAndPin (ascii "S1") (ascii "a@x"),
    .matchAndPin (ascii "S2") (ascii "b@x"), .openFile v, .write v 4096, .close v,
    .openFile v', .write v' 4096, .close v', .restart (ascii "a@x,b@x") []]

end TrafficMonitor.Siwa
