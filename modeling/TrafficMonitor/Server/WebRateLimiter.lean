import Mathlib.Data.Int.Basic
import TrafficMonitor.Basic.Bytes
import TrafficMonitor.Basic.SlidingWindow

/-!
# The rate limiter of the dashboard

`WebRateLimiter` keeps a queue of the accepted calls of each address. A call prunes the queue of
its address; every 256 calls all queues are pruned, and the empty ones are erased. Proved here,
for any calls at times that do not decrease:

* `tracks_tryAcquire`: a call leaves the queues tracking the window, whether it sweeps or not;
* `verdicts_of_calls`: the answers are those of the window, with the sweep and without it, and
  the answers to an address are those of a limiter for this address alone.

Times are in nanoseconds of the steady clock.
-/

namespace TrafficMonitor

open Bytes SlidingWindow

structure WebRateLimiter where
  rpm : Nat
  ops : Nat := 0
  map : Bytes → Option (List Int) := fun _ => none

namespace WebRateLimiter

/-- `duration_cast<std::chrono::seconds>`, which truncates. -/
def seconds (d : Int) : Int := d.tdiv 1000000000

/-- The loop that pops the front of a queue while it is 60 s old. -/
def popExpired (now : Int) : List Int → List Int
  | [] => []
  | front :: q => if seconds (now - front) ≥ 60 then popExpired now q else front :: q

/-- The sweep over the map: queues that are empty afterwards are erased. -/
def sweep (l : WebRateLimiter) (now : Int) : WebRateLimiter :=
  { l with map := fun ip => match l.map ip with
      | none => none
      | some q => if popExpired now q = [] then none else some (popExpired now q) }

/-- The part of `tryAcquire` after the sweep; `map_[ip]` makes an empty queue. -/
def acquire (l : WebRateLimiter) (ip : Bytes) (now : Int) : WebRateLimiter × Bool :=
  let dq := popExpired now ((l.map ip).getD [])
  if dq.length ≥ l.rpm then ({ l with map := Function.update l.map ip (some dq) }, false)
  else ({ l with map := Function.update l.map ip (some (dq ++ [now])) }, true)

def tryAcquire (l : WebRateLimiter) (ip : Bytes) (now : Int) : WebRateLimiter × Bool :=
  if l.rpm = 0 then (l, true)
  else
    let l := { l with ops := (l.ops + 1) % 2 ^ 64 }
    if l.ops &&& 0xFF = 0 then acquire (sweep l now) ip now else acquire l ip now

/-- For comparison: `tryAcquire` without the sweep. -/
def tryAcquireUnswept (l : WebRateLimiter) (ip : Bytes) (now : Int) : WebRateLimiter × Bool :=
  if l.rpm = 0 then (l, true) else acquire l ip now

/-- The answers to calls, each from an address at a time. -/
def answers (call : WebRateLimiter → Bytes → Int → WebRateLimiter × Bool) :
    WebRateLimiter → List (Bytes × Int) → List Bool
  | _, [] => []
  | l, (ip, now) :: calls => (call l ip now).2 :: answers call (call l ip now).1 calls

/-! ## Queues -/

/-- The 60 seconds. -/
def window : Int := 60000000000

variable {l : WebRateLimiter} {ip : Bytes} {now last : Int} {accepted : List (Bytes × Int)}

theorem sixty_le_seconds (d : Int) : 60 ≤ seconds d ↔ window ≤ d := by
  rw [seconds, window]
  rcases Int.le_total 0 d with h | h
  · rw [Int.tdiv_eq_ediv_of_nonneg h]
    omega
  · have hneg := Int.tdiv_nonneg (show 0 ≤ -d by omega) (show (0 : Int) ≤ 1000000000 by decide)
    rw [Int.neg_tdiv] at hneg
    omega

theorem popExpired_eq_prune (now : Int) (q : List Int) : popExpired now q = prune window now q := by
  induction q with
  | nil => rfl
  | cons t q ih =>
    rw [popExpired, prune, List.dropWhile_cons, ← prune, ih]
    simp only [ge_iff_le, sixty_le_seconds, decide_eq_true_eq]

/-- The queue of an address; none is like an empty one. -/
def queue (l : WebRateLimiter) (ip : Bytes) : List Int := (l.map ip).getD []

/-- The queues hold what was accepted, as far as it is in the window. -/
abbrev Window (l : WebRateLimiter) (last : Int) (accepted : List (Bytes × Int)) : Prop :=
  Tracks window last (queue l) accepted

theorem queue_sweep (l : WebRateLimiter) (now : Int) (ip : Bytes) :
    queue (sweep l now) ip = prune window now (queue l ip) := by
  rw [queue, queue, ← popExpired_eq_prune]
  cases hq : l.map ip with
  | none => simp [sweep, hq, popExpired]
  | some q => by_cases h : popExpired now q = [] <;> simp [sweep, hq, h]

theorem window_sweep (h : Window l last accepted) (hle : last ≤ now) :
    Window (sweep l now) now accepted :=
  h.prune hle fun ip => .inr (queue_sweep l now ip)

@[simp] theorem rpm_sweep (l : WebRateLimiter) (now : Int) : (sweep l now).rpm = l.rpm := rfl

/-! ## Calls -/

/-- The decision of the window on a call. -/
def allowed (rpm : Nat) (accepted : List (Bytes × Int)) (ip : Bytes) (now : Int) : Bool :=
  recent window accepted ip now < rpm

/-- The accepted calls after a call. -/
def extend (rpm : Nat) (accepted : List (Bytes × Int)) (ip : Bytes) (now : Int) :
    List (Bytes × Int) :=
  if allowed rpm accepted ip now then (ip, now) :: accepted else accepted

theorem queue_update (l : WebRateLimiter) (ip : Bytes) (q : List Int) :
    queue { l with map := Function.update l.map ip (some q) } =
      Function.update (queue l) ip q := by
  funext ip'
  by_cases h : ip' = ip
  · subst h
    simp [queue]
  · simp [queue, h]

theorem tracks_admit (h : Window l last accepted) (hle : last ≤ now) (ip : Bytes) :
    (acquire l ip now).2 = allowed l.rpm accepted ip now ∧
      (acquire l ip now).1.rpm = l.rpm ∧
      Window (acquire l ip now).1 now (extend l.rpm accepted ip now) := by
  have hlen := h.length_prune hle ip
  -- pruning the queue of the address alone
  have hpruned : Tracks window now (Function.update (queue l) ip (prune window now (queue l ip)))
      accepted := by
    refine h.prune hle fun k => ?_
    by_cases hk : k = ip
    · subst hk
      exact .inr (Function.update_self ..)
    · exact .inl (Function.update_of_ne hk ..)
  rw [acquire, popExpired_eq_prune, ← queue, hlen]
  by_cases hr : recent window accepted ip now < l.rpm
  · rw [if_neg (by omega)]
    refine ⟨by simp [allowed, hr], rfl, ?_⟩
    rw [extend, if_pos (by simpa [allowed] using hr), Window, queue_update]
    have := hpruned.accept ip
    rwa [Function.update_self, Function.update_idem] at this
  · rw [if_pos (by omega)]
    refine ⟨by simp [allowed, hr], rfl, ?_⟩
    rw [extend, if_neg (by simpa [allowed] using hr), Window, queue_update]
    exact hpruned

/-- **A call**, that sweeps or not. -/
theorem tracks_tryAcquire (hrpm : 0 < l.rpm) (h : Window l last accepted) (hle : last ≤ now)
    (ip : Bytes) :
    (tryAcquire l ip now).2 = allowed l.rpm accepted ip now ∧
      (tryAcquire l ip now).1.rpm = l.rpm ∧
      Window (tryAcquire l ip now).1 now (extend l.rpm accepted ip now) := by
  rw [tryAcquire, if_neg (by omega)]
  have hcount : Window { l with ops := (l.ops + 1) % 2 ^ 64 } last accepted := h
  dsimp only
  split
  · exact tracks_admit (window_sweep hcount hle) (Int.le_refl now) ip
  · exact tracks_admit hcount hle ip

theorem tracks_tryAcquireUnswept (hrpm : 0 < l.rpm) (h : Window l last accepted) (hle : last ≤ now)
    (ip : Bytes) :
    (tryAcquireUnswept l ip now).2 = allowed l.rpm accepted ip now ∧
      (tryAcquireUnswept l ip now).1.rpm = l.rpm ∧
      Window (tryAcquireUnswept l ip now).1 now (extend l.rpm accepted ip now) := by
  rw [tryAcquireUnswept, if_neg (by omega)]
  exact tracks_admit h hle ip

/-- The answers of calls that keep the queues tracking the window are those of the window. -/
theorem answers_eq_verdicts {call : WebRateLimiter → Bytes → Int → WebRateLimiter × Bool}
    (hcall : ∀ l last accepted ip now, 0 < l.rpm → Window l last accepted → last ≤ now →
      (call l ip now).2 = allowed l.rpm accepted ip now ∧ (call l ip now).1.rpm = l.rpm ∧
        Window (call l ip now).1 now (extend l.rpm accepted ip now))
    {calls : List (Bytes × Int)} (hrpm : 0 < l.rpm) (h : Window l last accepted)
    (hsorted : (last :: calls.map Prod.snd).Pairwise (· ≤ ·)) :
    answers call l calls = verdicts l.rpm window accepted calls := by
  induction calls generalizing l last accepted with
  | nil => rfl
  | cons c calls ih =>
    obtain ⟨ip, now⟩ := c
    obtain ⟨hlast, hrest⟩ := List.pairwise_cons.mp hsorted
    have hle : last ≤ now := hlast now (by simp)
    obtain ⟨hanswer, hsame, hwindow⟩ := hcall l last accepted ip now hrpm h hle
    rw [answers, hanswer, ih (hsame ▸ hrpm) hwindow hrest, hsame, verdicts, allowed, extend,
      allowed]
    by_cases hr : recent window accepted ip now < l.rpm <;> simp [hr]

/-- A limiter as constructed. -/
def construct (rpm : Nat) : WebRateLimiter := { rpm }

theorem window_construct (rpm : Nat) (last : Int) : Window (construct rpm) last [] :=
  tracks_nil window last

theorem pairwise_cons_head {calls : List (Bytes × Int)}
    (hsorted : (calls.map Prod.snd).Pairwise (· ≤ ·)) :
    ∃ last, (last :: calls.map Prod.snd).Pairwise (· ≤ ·) := by
  cases calls with
  | nil => exact ⟨0, by simp⟩
  | cons c calls =>
    refine ⟨c.2, List.pairwise_cons.mpr ⟨fun t ht => ?_, hsorted⟩⟩
    rcases List.mem_cons.mp ht with rfl | ht
    · exact Int.le_refl _
    · exact (List.pairwise_cons.mp hsorted).1 t ht

theorem answers_tryAcquire {rpm : Nat} {calls : List (Bytes × Int)} (hrpm : 0 < rpm)
    (hsorted : (calls.map Prod.snd).Pairwise (· ≤ ·)) :
    answers tryAcquire (construct rpm) calls = verdicts rpm window [] calls := by
  obtain ⟨last, hlast⟩ := pairwise_cons_head hsorted
  exact answers_eq_verdicts (fun _ _ _ ip _ hr h hle => tracks_tryAcquire hr h hle ip) hrpm
    (window_construct rpm last) hlast

theorem answers_tryAcquireUnswept {rpm : Nat} {calls : List (Bytes × Int)} (hrpm : 0 < rpm)
    (hsorted : (calls.map Prod.snd).Pairwise (· ≤ ·)) :
    answers tryAcquireUnswept (construct rpm) calls = verdicts rpm window [] calls := by
  obtain ⟨last, hlast⟩ := pairwise_cons_head hsorted
  exact answers_eq_verdicts (fun _ _ _ ip _ hr h hle => tracks_tryAcquireUnswept hr h hle ip) hrpm
    (window_construct rpm last) hlast

/-- **The limiter is its window.** A call is accepted if and only if fewer than `rpm` calls of its
address were accepted less than 60 s before; the sweep and the other addresses do not matter. -/
theorem verdicts_of_calls (rpm : Nat) (calls : List (Bytes × Int)) (hrpm : 0 < rpm)
    (hsorted : (calls.map Prod.snd).Pairwise (· ≤ ·)) :
    answers tryAcquire (construct rpm) calls = verdicts rpm window [] calls ∧
      answers tryAcquire (construct rpm) calls = answers tryAcquireUnswept (construct rpm) calls ∧
      ∀ ip, ((calls.zip (answers tryAcquire (construct rpm) calls)).filter (·.1.1 = ip)).map
        Prod.snd = answers tryAcquire (construct rpm) (calls.filter (·.1 = ip)) := by
  refine ⟨answers_tryAcquire hrpm hsorted, ?_, fun ip => ?_⟩
  · rw [answers_tryAcquire hrpm hsorted, answers_tryAcquireUnswept hrpm hsorted]
  · have hsub : ((calls.filter (·.1 = ip)).map Prod.snd).Pairwise (· ≤ ·) :=
      hsorted.sublist (List.filter_sublist.map Prod.snd)
    rw [answers_tryAcquire hrpm hsorted, answers_tryAcquire hrpm hsub, verdicts_filter]
    rfl

/-- At the boundary: after 59.999999999 s a call is refused, after 60 s it is accepted. -/
theorem verdicts_of_calls_boundary :
    answers tryAcquire (construct 1)
        [(ascii "10.0.0.7", 0), (ascii "10.0.0.7", 59999999999), (ascii "10.0.0.8", 59999999999),
          (ascii "10.0.0.7", 60000000000)] =
      [true, false, true, true] :=
  (verdicts_of_calls 1
    [(ascii "10.0.0.7", 0), (ascii "10.0.0.7", 59999999999), (ascii "10.0.0.8", 59999999999),
      (ascii "10.0.0.7", 60000000000)] (by decide) (by decide)).1.trans (by decide +kernel)

end WebRateLimiter

end TrafficMonitor
