import Mathlib.Data.List.Perm.Basic
import TrafficMonitor.Basic.Bytes
import TrafficMonitor.Basic.Lines
import TrafficMonitor.Basic.Runs

/-!
# Connections per address

The accept loop of the server and its workers share a `PerIPConnectionLimiter`. A connection
acquires a slot in the accept loop and gives it back on one of the error paths there, or in
the destructors of its worker. The steps are the statements of the accept loop and of the
destructors, in any interleaving; each call on the limiter is atomic.

Proved here, for every interleaving:

* `effect_of_step`: a step acquires a slot, releases one, is refused one, or does none of it;
* `slots_conserved_of_run`: the counts are those of the live connections, at most the maximum, and
  each slot is released once.
-/

namespace TrafficMonitor.Limiter

open Bytes Runs

/-! ## Addresses -/

/-- The four bytes of `sin_addr`, in network order. -/
structure Addr where
  a : UInt8
  b : UInt8
  c : UInt8
  d : UInt8
  deriving DecidableEq, Repr

def DOT : UInt8 := 46

/-- `inet_ntop` of an IPv4 address, which does not fail with a buffer of `INET_ADDRSTRLEN`. -/
def inet_ntop (addr : Addr) : Option Bytes :=
  some (decimal addr.a.toNat ++ DOT :: (decimal addr.b.toNat ++ DOT :: (decimal addr.c.toNat ++
    DOT :: decimal addr.d.toNat)))

/-- `s_addr` on a little-endian machine. -/
def s_addr (addr : Addr) : Nat :=
  addr.a.toNat + 256 * (addr.b.toNat + 256 * (addr.c.toNat + 256 * addr.d.toNat))

def clientIp (addr : Addr) : Bytes :=
  match inet_ntop addr with
  | some text => text
  | none => ascii "raw:" ++ decimal (s_addr addr)

/-! ## The limiter -/

structure PerIPConnectionLimiter where
  maxPerIP : Nat
  counts : Bytes → Option Nat := fun _ => none

/-- The setting of the configuration: the default, or a number that is clamped. -/
def max_connections_per_ip : Option Nat → Nat
  | none => 20
  | some u => min 1000 (max 1 u)

namespace PerIPConnectionLimiter

def construct (maxPerIP : Nat) : PerIPConnectionLimiter where
  maxPerIP := if maxPerIP > 0 then maxPerIP else 1

def tryAcquire (l : PerIPConnectionLimiter) (ip : Bytes) : PerIPConnectionLimiter × Bool :=
  if ip = [] then (l, true)
  else
    -- `operator[]` makes an entry if there is none
    let n := (l.counts ip).getD 0
    if n ≥ l.maxPerIP then ({ l with counts := Function.update l.counts ip (some n) }, false)
    else ({ l with counts := Function.update l.counts ip (some ((n + 1) % 2 ^ 32)) }, true)

def release (l : PerIPConnectionLimiter) (ip : Bytes) : PerIPConnectionLimiter :=
  if ip = [] then l
  else match l.counts ip with
    | none => l
    | some n =>
      { l with counts := Function.update l.counts ip (if n ≤ 1 then none else some (n - 1)) }

end PerIPConnectionLimiter

/-! ## The accept loop and the workers -/

/-- A connection that holds a slot; the slots are numbered as they are acquired. -/
structure Conn where
  slot : Nat
  addr : Addr
  deriving DecidableEq, Repr

inductive Op
  | freeSsl
  | close
  | release
  | decActive
  | setDone
  deriving DecidableEq, Repr

/-- What remains to be done at the end of a connection. Nothing is done twice. -/
structure Cleanup where
  ops : List Op
  nodup : ops.Nodup

def sslNewFailed : Cleanup := ⟨[.close, .release, .decActive], by decide⟩

def setFdFailed : Cleanup := ⟨[.freeSsl, .close, .release, .decActive], by decide⟩

def acceptFailed : Cleanup := ⟨[.freeSsl, .close, .release, .decActive], by decide⟩

def spawnFailed : Cleanup := ⟨[.freeSsl, .close, .release, .decActive], by decide⟩

inductive WorkerKind
  | wsConnectionThread
  | connectionThread
  | httpWebThread
  deriving DecidableEq, Repr

/-- The destructors of `connCloser`, `perIPGuard`, `guard` and `doneGuard`. -/
def WorkerKind.destructors : WorkerKind → Cleanup
  | .wsConnectionThread => ⟨[.freeSsl, .close, .release, .decActive, .setDone], by decide⟩
  | .connectionThread => ⟨[.freeSsl, .close, .release, .decActive, .setDone], by decide⟩
  | .httpWebThread => ⟨[.freeSsl, .close, .release, .decActive, .setDone], by decide⟩

/-- The next statement of the accept loop. -/
inductive Pc
  | poll
  | limit (addr : Addr)
  | acquire (addr : Addr)
  | incActive (c : Conn)
  | sslNew (c : Conn)
  | setFd (c : Conn)
  | sslAccept (c : Conn)
  | spawn (c : Conn)
  | failed (c : Conn) (todo : Cleanup)
  | stopped

/-- A worker runs its body, or the destructors that remain. -/
structure Worker where
  conn : Conn
  kind : WorkerKind
  unwinding : Option Cleanup := none

structure Server where
  limiter : PerIPConnectionLimiter
  pc : Pc := .poll
  active : Nat := 0
  workers : List Worker := []
  /-- How many slots were acquired. -/
  slots : Nat := 0
  /-- The slots that were released, the last one first. -/
  released : List Nat := []

def start (setting : Option Nat) : Server where
  limiter := PerIPConnectionLimiter.construct (max_connections_per_ip setting)

/-- One clean-up statement for a connection. -/
def Server.perform (s : Server) (c : Conn) : Op → Server
  | .release =>
    { s with limiter := s.limiter.release (clientIp c.addr), released := c.slot :: s.released }
  | .decActive => { s with active := (s.active + 2 ^ 64 - 1) % 2 ^ 64 }
  | .freeSsl => s
  | .close => s
  | .setDone => s

inductive Act
  /-- `accept` delivers a connection. -/
  | accept (addr : Addr)
  /-- The next statement of the accept loop; `ok` is the answer if it is a call of OpenSSL. -/
  | next (ok : Bool)
  /-- The worker is spawned, or an exception is caught. -/
  | spawn (kind : Option WorkerKind)
  | reap
  | stop
  /-- The body of the worker at the index ends. -/
  | finish (i : Nat)
  /-- The worker at the index runs one more destructor. -/
  | unwind (i : Nat)
  deriving DecidableEq, Repr

/-- The next statement of the accept loop, up to the spawn. -/
def Server.next (s : Server) (maxConn : Nat) (ok : Bool) : Option Server :=
  match s.pc with
  | .limit addr => some { s with pc := if s.active ≥ maxConn then .poll else .acquire addr }
  | .acquire addr =>
    let r := s.limiter.tryAcquire (clientIp addr)
    if r.2 then some { s with limiter := r.1, pc := .incActive ⟨s.slots, addr⟩, slots := s.slots + 1 }
    else some { s with limiter := r.1, pc := .poll }
  | .incActive c => some { s with pc := .sslNew c, active := (s.active + 1) % 2 ^ 64 }
  | .sslNew c => some { s with pc := if ok then .setFd c else .failed c sslNewFailed }
  | .setFd c => some { s with pc := if ok then .sslAccept c else .failed c setFdFailed }
  | .sslAccept c => some { s with pc := if ok then .spawn c else .failed c acceptFailed }
  | .failed _ ⟨[], _⟩ => some { s with pc := .poll }
  | .failed c ⟨op :: ops, h⟩ =>
    some { s.perform c op with pc := .failed c ⟨ops, (List.nodup_cons.mp h).2⟩ }
  | _ => none

def step (maxConn : Nat) (s : Server) : Act → Option Server
  | .accept addr => match s.pc with
    | .poll => some { s with pc := .limit addr }
    | _ => none
  | .next ok => s.next maxConn ok
  | .spawn kind => match s.pc with
    | .spawn c => match kind with
      | some kind => some { s with pc := .poll, workers := s.workers ++ [⟨c, kind, none⟩] }
      | none => some { s with pc := .failed c spawnFailed }
    | _ => none
  | .reap => match s.pc with
    | .poll =>
      some { s with workers := s.workers.filter fun w => w.unwinding.all (!·.ops.isEmpty) }
    | _ => none
  | .stop => match s.pc with
    | .poll => some { s with pc := .stopped }
    | _ => none
  | .finish i => match s.workers[i]? with
    | some w => match w.unwinding with
      | none => some { s with
          workers := s.workers.set i { w with unwinding := some w.kind.destructors } }
      | some _ => none
    | none => none
  | .unwind i => match s.workers[i]? with
    | some w => match w.unwinding with
      | some ⟨op :: ops, h⟩ =>
        let rest : Cleanup := ⟨ops, (List.nodup_cons.mp h).2⟩
        some { s.perform w.conn op with
          workers := s.workers.set i { w with unwinding := some rest } }
      | _ => none
    | none => none

/-! ## Live connections -/

/-- The clean-up has not given the slot back. -/
def Cleanup.holds (todo : Cleanup) : Bool := .release ∈ todo.ops

def Pc.live : Pc → List Conn
  | .poll => []
  | .limit _ => []
  | .acquire _ => []
  | .incActive c => [c]
  | .sslNew c => [c]
  | .setFd c => [c]
  | .sslAccept c => [c]
  | .spawn c => [c]
  | .failed c todo => if todo.holds then [c] else []
  | .stopped => []

def Worker.live (w : Worker) : Option Conn :=
  if w.unwinding.all (·.holds) then some w.conn else none

/-- The connections that were accepted and are in the accept loop or in a worker. -/
def Server.live (s : Server) : List Conn := s.pc.live ++ s.workers.filterMap Worker.live

/-- What a step does to the slots. -/
inductive Effect (s s' : Server) : Prop
  | quiet (live : s'.live.Perm s.live) (limiter : s'.limiter = s.limiter) (slots : s'.slots = s.slots)
    (released : s'.released = s.released)
  | refused (addr : Addr) (live : s'.live.Perm s.live)
    (limiter : s.limiter.tryAcquire (clientIp addr) = (s'.limiter, false))
    (slots : s'.slots = s.slots) (released : s'.released = s.released)
  | acquired (addr : Addr) (live : s'.live.Perm (⟨s.slots, addr⟩ :: s.live))
    (limiter : s.limiter.tryAcquire (clientIp addr) = (s'.limiter, true))
    (slots : s'.slots = s.slots + 1) (released : s'.released = s.released)
  | released (c : Conn) (live : s.live.Perm (c :: s'.live))
    (limiter : s'.limiter = s.limiter.release (clientIp c.addr)) (slots : s'.slots = s.slots)
    (released : s'.released = c.slot :: s.released)

/-- What is left after a statement holds the slot if the statement does not release it. -/
theorem Cleanup.holds_cons {op : Op} {ops : List Op} (h : (op :: ops).Nodup) :
    Cleanup.holds ⟨op :: ops, h⟩ = true ∧
      (Cleanup.holds ⟨ops, (List.nodup_cons.mp h).2⟩ = false) ∧ op = .release ∨
    Cleanup.holds ⟨op :: ops, h⟩ = Cleanup.holds ⟨ops, (List.nodup_cons.mp h).2⟩ ∧ op ≠ .release := by
  by_cases hop : op = .release
  · subst hop
    exact .inl ⟨by simp [holds], by simpa [holds] using (List.nodup_cons.mp h).1, rfl⟩
  · exact .inr ⟨by simp [holds, Ne.symm hop], hop⟩

-- the number behind `active` stays closed: unifying it with `s.active` would unfold `2 ^ 64`
theorem perform_decActive (s : Server) (c : Conn) :
    ∃ n, s.perform c .decActive = { s with active := n } := ⟨_, rfl⟩

theorem perform_of_ne {s : Server} {c : Conn} {op : Op} (h : op ≠ .release) :
    (s.perform c op).limiter = s.limiter ∧ (s.perform c op).slots = s.slots ∧
      (s.perform c op).released = s.released := by
  cases op with
  | release => exact absurd rfl h
  | decActive =>
    obtain ⟨n, hn⟩ := perform_decActive s c
    rw [hn]
    exact ⟨rfl, rfl, rfl⟩
  | freeSsl => exact ⟨rfl, rfl, rfl⟩
  | close => exact ⟨rfl, rfl, rfl⟩
  | setDone => exact ⟨rfl, rfl, rfl⟩

theorem perform_pc (s : Server) (c : Conn) (op : Op) :
    (s.perform c op).pc = s.pc ∧ (s.perform c op).workers = s.workers := by
  cases op with
  | decActive =>
    obtain ⟨n, hn⟩ := perform_decActive s c
    rw [hn]
    exact ⟨rfl, rfl⟩
  | release => exact ⟨rfl, rfl⟩
  | freeSsl => exact ⟨rfl, rfl⟩
  | close => exact ⟨rfl, rfl⟩
  | setDone => exact ⟨rfl, rfl⟩

theorem effect_of_next {maxConn : Nat} {s s' : Server} {ok : Bool} (h : s.next maxConn ok = some s') :
    Effect s s' := by
  unfold Server.next at h
  cases hpc : s.pc with
  | poll => simp [hpc] at h
  | spawn c => simp [hpc] at h
  | stopped => simp [hpc] at h
  | limit addr =>
    simp only [hpc, Option.some.injEq] at h
    subst h
    refine .quiet ?_ rfl rfl rfl
    split <;> simp [Server.live, hpc, Pc.live]
  | acquire addr =>
    simp only [hpc] at h
    split at h <;> cases h <;> rename_i hr
    · exact .acquired addr (by simp [Server.live, hpc, Pc.live]) (Prod.ext rfl hr) rfl rfl
    · exact .refused addr (by simp [Server.live, hpc, Pc.live])
        (Prod.ext rfl (by simpa using hr)) rfl rfl
  | incActive c =>
    simp only [hpc, Option.some.injEq] at h
    subst h
    exact .quiet (by simp [Server.live, hpc, Pc.live]) rfl rfl rfl
  | sslNew c =>
    simp only [hpc, Option.some.injEq] at h
    subst h
    refine .quiet ?_ rfl rfl rfl
    split <;> simp [Server.live, hpc, Pc.live, sslNewFailed, Cleanup.holds]
  | setFd c =>
    simp only [hpc, Option.some.injEq] at h
    subst h
    refine .quiet ?_ rfl rfl rfl
    split <;> simp [Server.live, hpc, Pc.live, setFdFailed, Cleanup.holds]
  | sslAccept c =>
    simp only [hpc, Option.some.injEq] at h
    subst h
    refine .quiet ?_ rfl rfl rfl
    split <;> simp [Server.live, hpc, Pc.live, acceptFailed, Cleanup.holds]
  | failed c todo =>
    obtain ⟨ops, hnodup⟩ := todo
    cases ops with
    | nil =>
      simp only [hpc, Option.some.injEq] at h
      subst h
      exact .quiet (by simp [Server.live, hpc, Pc.live, Cleanup.holds]) rfl rfl rfl
    | cons op ops =>
      simp only [hpc, Option.some.injEq] at h
      subst h
      obtain ⟨hpc', hw⟩ := perform_pc s c op
      rcases Cleanup.holds_cons hnodup with ⟨hheld, hfree, rfl⟩ | ⟨heq, hne⟩
      · exact .released c (by simp [Server.live, hpc, Pc.live, hheld, hfree, hw]) rfl rfl rfl
      · obtain ⟨hl, hs, hr⟩ := perform_of_ne (s := s) (c := c) hne
        exact .quiet (by simp [Server.live, hpc, Pc.live, heq, hw]) hl hs hr

/-- The live workers, when one of the workers is replaced. -/
theorem live_set {workers : List Worker} {i : Nat} {w : Worker} (h : workers[i]? = some w)
    (w' : Worker) : ∃ rest, (workers.filterMap Worker.live).Perm (w.live.toList ++ rest) ∧
      ((workers.set i w').filterMap Worker.live).Perm (w'.live.toList ++ rest) := by
  obtain ⟨hi, rfl⟩ := List.getElem?_eq_some_iff.mp h
  have hcons (w : Worker) : (w :: workers.eraseIdx i).filterMap Worker.live =
      w.live.toList ++ (workers.eraseIdx i).filterMap Worker.live := by
    cases hw : w.live <;> simp [hw]
  refine ⟨(workers.eraseIdx i).filterMap Worker.live, ?_, ?_⟩
  · rw [← hcons]
    exact (List.getElem_cons_eraseIdx_perm hi).symm.filterMap _
  · rw [← hcons]
    exact (List.set_perm_cons_eraseIdx hi w').filterMap _

theorem live_of_finished {w : Worker} (h : ¬w.unwinding.all (!·.ops.isEmpty) = true) :
    w.live = none := by
  obtain ⟨c, kind, _ | ⟨ops, hnodup⟩⟩ := w
  · simp at h
  · have : ops = [] := by simpa using h
    subst this
    rfl

/-- **Steps.** -/
theorem effect_of_step {maxConn : Nat} {s s' : Server} {a : Act} (h : step maxConn s a = some s') :
    Effect s s' := by
  cases a with
  | accept addr =>
    cases hpc : s.pc <;> simp only [step, hpc, reduceCtorEq, Option.some.injEq] at h
    subst h
    exact .quiet (by simp [Server.live, hpc, Pc.live]) rfl rfl rfl
  | next ok => exact effect_of_next h
  | spawn kind =>
    cases hpc : s.pc <;> simp only [step, hpc, reduceCtorEq] at h
    rename_i c
    cases kind with
    | none =>
      cases h
      exact .quiet (by simp [Server.live, hpc, Pc.live, spawnFailed, Cleanup.holds]) rfl rfl rfl
    | some kind =>
      cases h
      refine .quiet ?_ rfl rfl rfl
      simp [Server.live, hpc, Pc.live, Worker.live]
  | reap =>
    cases hpc : s.pc <;> simp only [step, hpc, reduceCtorEq, Option.some.injEq] at h
    subst h
    refine .quiet (.of_eq ?_) rfl rfl rfl
    rw [Server.live, Server.live, hpc, List.filterMap_filter]
    congr 1
    refine List.filterMap_congr fun w _ => ?_
    split
    · rfl
    · rename_i hw
      exact (live_of_finished hw).symm
  | stop =>
    cases hpc : s.pc <;> simp only [step, hpc, reduceCtorEq, Option.some.injEq] at h
    subst h
    exact .quiet (by simp [Server.live, hpc, Pc.live]) rfl rfl rfl
  | finish i =>
    cases hw : s.workers[i]? with
    | none => simp [step, hw] at h
    | some w =>
      obtain ⟨c, kind, unwinding⟩ := w
      cases unwinding <;> simp only [step, hw, reduceCtorEq, Option.some.injEq] at h
      subst h
      obtain ⟨rest, hl, hl'⟩ := live_set hw ⟨c, kind, some kind.destructors⟩
      have hlive : Worker.live ⟨c, kind, some kind.destructors⟩ = Worker.live ⟨c, kind, none⟩ := by
        cases kind <;> rfl
      rw [hlive] at hl'
      exact .quiet ((hl'.trans hl.symm).append_left _) rfl rfl rfl
  | unwind i =>
    cases hw : s.workers[i]? with
    | none => simp [step, hw] at h
    | some w =>
      obtain ⟨c, kind, _ | ⟨_ | ⟨op, ops⟩, hnodup⟩⟩ := w <;>
        simp only [step, hw, reduceCtorEq, Option.some.injEq] at h
      subst h
      obtain ⟨hpc, -⟩ := perform_pc s c op
      obtain ⟨rest, hl, hl'⟩ := live_set hw ⟨c, kind, some ⟨ops, (List.nodup_cons.mp hnodup).2⟩⟩
      rcases Cleanup.holds_cons hnodup with ⟨hheld, hfree, rfl⟩ | ⟨heq, hne⟩
      · simp only [Worker.live, Option.all_some, hheld, hfree, if_true, Bool.false_eq_true,
          if_false, Option.toList_some, Option.toList_none] at hl hl'
        refine .released c ?_ rfl rfl rfl
        simp only [Server.live, hpc]
        exact (((hl.trans (hl'.symm.cons c)).append_left _).trans List.perm_middle)
      · obtain ⟨hlim, hs, hr⟩ := perform_of_ne (s := s) (c := c) hne
        simp only [Worker.live, Option.all_some, heq] at hl hl'
        refine .quiet ?_ hlim hs hr
        simp only [Server.live, hpc]
        exact (hl'.trans hl.symm).append_left _

/-! ## Conservation -/

theorem dot_not_mem (n : Nat) : DOT ∉ decimal n := not_mem_decimal (by decide) n

theorem decimal_toNat_inj {a b : UInt8} (h : decimal a.toNat = decimal b.toNat) : a = b := by
  have := congrArg digitsValue h
  rw [digitsValue_decimal, digitsValue_decimal] at this
  exact UInt8.toNat_inj.mp this

/-- Different addresses have different texts. -/
theorem clientIp_injective : Function.Injective clientIp := by
  have hcut {n m : Nat} {s t : Bytes} (h : decimal n ++ DOT :: s = decimal m ++ DOT :: t) :
      decimal n = decimal m ∧ s = t := by
    have hn := Lines.cut_append DOT (decimal n) s (dot_not_mem n)
    rw [h, Lines.cut_append DOT (decimal m) t (dot_not_mem m)] at hn
    exact ⟨congrArg Prod.fst (Option.some.inj hn).symm, congrArg Prod.snd (Option.some.inj hn).symm⟩
  rintro ⟨a, b, c, d⟩ ⟨a', b', c', d'⟩ h
  obtain ⟨ha, h⟩ := hcut h
  obtain ⟨hb, h⟩ := hcut h
  obtain ⟨hc, hd⟩ := hcut h
  obtain rfl := decimal_toNat_inj ha
  obtain rfl := decimal_toNat_inj hb
  obtain rfl := decimal_toNat_inj hc
  obtain rfl := decimal_toNat_inj hd
  rfl

theorem clientIp_ne_nil (addr : Addr) : clientIp addr ≠ [] := by
  simp [clientIp, inet_ntop]

/-- The live connections with the key. -/
def Server.keyed (s : Server) (ip : Bytes) : Nat := s.live.countP fun c => clientIp c.addr = ip

structure Inv (max : Nat) (s : Server) : Prop where
  limit : s.limiter.maxPerIP = max
  counts : ∀ ip, s.limiter.counts ip = if s.keyed ip = 0 then none else some (s.keyed ip)
  bound : ∀ ip, s.keyed ip ≤ max
  slots : ∀ id, s.released.count id + s.live.countP (·.slot = id) = if id < s.slots then 1 else 0

theorem Inv.getD {max : Nat} {s : Server} (h : Inv max s) (ip : Bytes) :
    (s.limiter.counts ip).getD 0 = s.keyed ip := by
  rw [h.counts]
  split
  · rename_i h0
    simp [h0]
  · rfl

theorem keyed_of_perm {s s' : Server} (h : s'.live.Perm s.live) : s'.keyed = s.keyed :=
  funext fun _ => h.countP_eq _

/-- The keyed connections when a connection comes. -/
theorem keyed_of_cons {s s' : Server} {c : Conn} (h : s'.live.Perm (c :: s.live)) (ip : Bytes) :
    s'.keyed ip = s.keyed ip + if clientIp c.addr = ip then 1 else 0 := by
  rw [Server.keyed, h.countP_eq, List.countP_cons]
  simp [Server.keyed]

theorem Inv.preserved {max : Nat} (hpos : 0 < max) (hmax : max < 2 ^ 32) {s s' : Server}
    (h : Inv max s) (he : Effect s s') : Inv max s' := by
  cases he with
  | quiet live limiter slots released =>
    have hk := keyed_of_perm live
    refine ⟨by rw [limiter, h.limit], ?_, ?_, ?_⟩
    · rw [limiter, hk]
      exact h.counts
    · rw [hk]
      exact h.bound
    · intro id
      rw [released, slots, live.countP_eq]
      exact h.slots id
  | refused addr live limiter slots released =>
    have hk := keyed_of_perm live
    have hn := h.getD (clientIp addr)
    simp only [PerIPConnectionLimiter.tryAcquire, clientIp_ne_nil, if_false, hn, h.limit] at limiter
    split at limiter
    · rename_i hfull
      obtain ⟨hl, -⟩ := Prod.mk.inj limiter
      -- an address that is refused has an entry already
      have hsame : s'.limiter = s.limiter := by
        have hc := h.counts (clientIp addr)
        rw [if_neg (by omega)] at hc
        rw [← hl, ← hc, Function.update_eq_self, ← h.limit]
      refine ⟨by rw [hsame, h.limit], ?_, ?_, ?_⟩
      · rw [hsame, hk]
        exact h.counts
      · rw [hk]
        exact h.bound
      · intro id
        rw [released, slots, live.countP_eq]
        exact h.slots id
    · exact absurd (Prod.mk.inj limiter).2 (by decide)
  | acquired addr live limiter slots released =>
    have hk := keyed_of_cons live
    have hn := h.getD (clientIp addr)
    simp only [PerIPConnectionLimiter.tryAcquire, clientIp_ne_nil, if_false, hn, h.limit] at limiter
    split at limiter
    · exact absurd (Prod.mk.inj limiter).2 (by decide)
    · rename_i hroom
      obtain ⟨hl, -⟩ := Prod.mk.inj limiter
      rw [Nat.mod_eq_of_lt (by omega)] at hl
      refine ⟨by rw [← hl, ← h.limit], fun ip => ?_, fun ip => ?_, fun id => ?_⟩
      · rw [← hl, hk]
        dsimp only
        by_cases hip : ip = clientIp addr
        · subst hip
          simp
        · rw [Function.update_of_ne hip, if_neg (Ne.symm hip)]
          exact h.counts ip
      · rw [hk]
        dsimp only
        split
        · rename_i hip
          subst hip
          omega
        · exact h.bound ip
      · have hslots := h.slots id
        rw [released, slots, live.countP_eq, List.countP_cons]
        by_cases hid : s.slots = id
        · subst hid
          rw [if_neg (Nat.lt_irrefl _)] at hslots
          rw [if_pos (Nat.lt_succ_self _), if_pos (decide_eq_true rfl)]
          omega
        · simp only [hid, decide_false, Bool.false_eq_true, if_false]
          split at hslots <;> split <;> omega
  | released c live limiter slots released =>
    have hk := keyed_of_cons live
    have hown := hk (clientIp c.addr)
    rw [if_pos rfl] at hown
    have hcount : s.limiter.counts (clientIp c.addr) = some (s'.keyed (clientIp c.addr) + 1) := by
      rw [h.counts, if_neg (by omega), hown]
    rw [PerIPConnectionLimiter.release, if_neg (clientIp_ne_nil _), hcount] at limiter
    refine ⟨by rw [limiter, ← h.limit], fun ip => ?_, fun ip => ?_, fun id => ?_⟩
    · rw [limiter]
      dsimp only
      by_cases hip : ip = clientIp c.addr
      · subst hip
        simp
      · rw [Function.update_of_ne hip, h.counts, hk, if_neg (Ne.symm hip), Nat.add_zero]
    · have := h.bound ip
      rw [hk] at this
      omega
    · have hslots := h.slots id
      rw [live.countP_eq, List.countP_cons] at hslots
      rw [released, slots, List.count_cons, ← hslots]
      simp only [beq_iff_eq, decide_eq_true_eq]
      omega

theorem inv_start (setting : Option Nat) :
    Inv (max_connections_per_ip setting) (start setting) := by
  refine ⟨?_, fun ip => rfl, fun ip => Nat.zero_le _, fun id => by simp [start, Server.live, Pc.live]⟩
  cases setting with
  | none => rfl
  | some u =>
    have hpos : max_connections_per_ip (some u) > 0 := by
      simp only [max_connections_per_ip]
      omega
    exact if_pos hpos

/-- The count of an address is that of its live connections and is at most the maximum; there
are no entries of other addresses; each slot that was acquired is held by one live connection or
has been released once. -/
structure Conserved (max : Nat) (s : Server) : Prop where
  count : ∀ addr, (s.limiter.counts (clientIp addr)).getD 0 = s.live.countP (·.addr = addr)
  bound : ∀ addr, s.live.countP (·.addr = addr) ≤ max
  entries : ∀ ip, (s.limiter.counts ip).isSome = true → ∃ c ∈ s.live, clientIp c.addr = ip
  released : ∀ slot < s.slots,
    s.released.count slot = if ∃ c ∈ s.live, c.slot = slot then 0 else 1
  once : ∀ slot < s.slots, s.live.countP (·.slot = slot) ≤ 1
  acquired : ∀ slot, slot ∈ s.released ∨ (∃ c ∈ s.live, c.slot = slot) → slot < s.slots

theorem Inv.conserved {max : Nat} {s : Server} (h : Inv max s) : Conserved max s := by
  have haddr (addr : Addr) : s.keyed (clientIp addr) = s.live.countP (·.addr = addr) := by
    simp only [Server.keyed, clientIp_injective.eq_iff]
  have hlive (slot : Nat) : (∃ c ∈ s.live, c.slot = slot) ↔ 0 < s.live.countP (·.slot = slot) := by
    simp [List.countP_pos_iff]
  refine ⟨fun addr => ?_, fun addr => ?_, fun ip hip => ?_, fun slot hs => ?_, fun slot hs => ?_,
    fun slot hs => ?_⟩
  · rw [h.getD, haddr]
  · rw [← haddr]
    exact h.bound _
  · rw [h.counts] at hip
    split at hip
    · cases hip
    · rename_i hpos
      simpa using List.countP_pos_iff.mp (Nat.pos_of_ne_zero hpos)
  · have := h.slots slot
    rw [if_pos hs] at this
    split
    · rename_i hl
      have := (hlive slot).mp hl
      omega
    · rename_i hl
      have := mt (hlive slot).mpr hl
      omega
  · have := h.slots slot
    rw [if_pos hs] at this
    omega
  · have hslots := h.slots slot
    by_contra hge
    rw [if_neg hge] at hslots
    rcases hs with hs | hs
    · have := List.count_pos_iff.mpr hs
      omega
    · have := (hlive slot).mp hs
      omega

/-- **Conservation.** -/
theorem slots_conserved_of_run {setting : Option Nat} {maxConn : Nat} {as : List Act} {s : Server}
    (hr : run (step maxConn) (start setting) as = some s) :
    Conserved (max_connections_per_ip setting) s := by
  have hmax : 0 < max_connections_per_ip setting ∧ max_connections_per_ip setting < 2 ^ 32 := by
    cases setting with
    | none => decide
    | some u =>
      simp only [max_connections_per_ip]
      omega
  refine Inv.conserved (invariant_of_run (fun s a s' hi hs => ?_) (inv_start setting) hr)
  exact hi.preserved hmax.1 hmax.2 (effect_of_step hs)

/-- With one connection for each address, the second of three is refused and the third has the
slot 1 after the first is gone. -/
theorem slots_conserved_of_run_three :
    let addr : Addr := ⟨10, 0, 0, 1⟩
    let connect := [Act.accept addr, .next true, .next true]
    let serve := [Act.next true, .next true, .next true, .next true, .spawn (some .httpWebThread)]
    let close := [Act.finish 0, .unwind 0, .unwind 0, .unwind 0, .unwind 0, .unwind 0, .reap]
    let r := run (step 10) (start (some 1)) (connect ++ serve ++ connect ++ close ++ connect)
    r.map (fun s => (s.live, s.released)) = some ([⟨1, addr⟩], [0]) ∧
      ∀ s ∈ r, Conserved (max_connections_per_ip (some 1)) s :=
  ⟨by decide +kernel, fun _ hs => slots_conserved_of_run hs⟩

end TrafficMonitor.Limiter
