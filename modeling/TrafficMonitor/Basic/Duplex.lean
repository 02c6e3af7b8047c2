import TrafficMonitor.Basic.Bytes
import TrafficMonitor.Basic.Runs

/-!
# Two programs on one connection

A `Proc` is a program that writes to a connection and reads from it, with the rest of the program
as a continuation. A `Duplex` is two programs with the bytes in flight between them. Either
side may move at any time, so a run is a list of sides.

Proved here:

* `diamond`: moves of the two sides commute;
* `run_of_ended`: from any state of a run one can still reach the end that one run has;
* `eq_of_stuck`: all runs that cannot go on end alike.
-/

namespace TrafficMonitor

open Bytes Runs

/-- A read that fails, because the peer has closed the connection, continues with `none`. -/
inductive Proc (α : Type)
  | ret (a : α)
  | write (s : Bytes) (next : Proc α)
  | read (n : Nat) (next : Option Bytes → Proc α)

namespace Proc

variable {α β : Type}

def bind (p : Proc α) (f : α → Proc β) : Proc β :=
  match p with
  | .ret a => f a
  | .write s next => .write s (next.bind f)
  | .read n next => .read n fun s => (next s).bind f

def isDone : Proc α → Bool
  | .ret _ => true
  | _ => false

/-- One move of a program: the program after it, the bytes still to be read, and the bytes
written. A read waits for its bytes, and fails if they cannot come any more. -/
def move (peerDone : Bool) (inbox : Bytes) : Proc α → Option (Proc α × Bytes × Bytes)
  | .ret _ => none
  | .write s next => some (next, inbox, s)
  | .read n next =>
    if n ≤ inbox.length then some (next (some (inbox.take n)), inbox.drop n, [])
    else if peerDone then some (next none, [], [])
    else none

/-- What a program does not depend on: whether its peer is done, once it can move without that,
and bytes that come later. -/
theorem move_append {p p' : Proc α} {inbox inbox' out : Bytes} {peerDone : Bool}
    (h : p.move false inbox = some (p', inbox', out)) (more : Bytes) :
    p.move peerDone (inbox ++ more) = some (p', inbox' ++ more, out) := by
  cases p with
  | ret a => cases h
  | write s next =>
    simp only [move, Option.some.injEq, Prod.mk.injEq] at h ⊢
    exact ⟨h.1, by rw [h.2.1], h.2.2⟩
  | read n next =>
    simp only [move] at h
    split at h
    · rename_i hn
      simp only [Option.some.injEq, Prod.mk.injEq] at h
      obtain ⟨rfl, rfl, rfl⟩ := h
      rw [move, if_pos (by rw [List.length_append]; omega), List.take_append_of_le_length hn,
        List.drop_append_of_le_length hn]
    · simp at h

theorem isDone_of_move {p : Proc α} {peerDone : Bool} {inbox : Bytes}
    (h : p.move peerDone inbox ≠ none) : p.isDone = false := by
  cases p with
  | ret a => exact absurd rfl h
  | write s next => rfl
  | read n next => rfl

end Proc

/-- Two programs and the bytes in flight between them. -/
structure Duplex (α β : Type) where
  left : Proc α
  right : Proc β
  toRight : Bytes := []
  toLeft : Bytes := []

inductive Side
  | left
  | right
  deriving DecidableEq, Repr

namespace Duplex

variable {α β : Type}

def step (d : Duplex α β) : Side → Option (Duplex α β)
  | .left => (d.left.move d.right.isDone d.toLeft).map fun m =>
      { d with left := m.1, toLeft := m.2.1, toRight := d.toRight ++ m.2.2 }
  | .right => (d.right.move d.left.isDone d.toRight).map fun m =>
      { d with right := m.1, toRight := m.2.1, toLeft := d.toLeft ++ m.2.2 }

theorem step_left_write (s : Bytes) (p : Proc α) (q : Proc β) (toRight toLeft : Bytes) :
    step ⟨.write s p, q, toRight, toLeft⟩ .left = some ⟨p, q, toRight ++ s, toLeft⟩ := rfl

theorem step_right_write (s : Bytes) (p : Proc α) (q : Proc β) (toRight toLeft : Bytes) :
    step ⟨p, .write s q, toRight, toLeft⟩ .right = some ⟨p, q, toRight, toLeft ++ s⟩ := rfl

/-- A read of exactly the bytes in flight. -/
theorem step_left_read {n : Nat} {s : Bytes} (h : s.length = n) (p : Option Bytes → Proc α)
    (q : Proc β) (toRight : Bytes) :
    step ⟨.read n p, q, toRight, s⟩ .left = some ⟨p (some s), q, toRight, []⟩ := by
  subst h
  simp [step, Proc.move]

theorem step_right_read {n : Nat} {s : Bytes} (h : s.length = n) (p : Proc α)
    (q : Option Bytes → Proc β) (toLeft : Bytes) :
    step ⟨p, .read n q, s, toLeft⟩ .right = some ⟨p, q (some s), [], toLeft⟩ := by
  subst h
  simp [step, Proc.move]

/-- Neither side can move. -/
def Stuck (d : Duplex α β) : Prop := ∀ side, d.step side = none

theorem stuck_of_ret (a : α) (b : β) (toRight toLeft : Bytes) :
    Stuck ⟨.ret a, .ret b, toRight, toLeft⟩ := by
  intro side
  cases side <;> rfl

/-- **Moves of the two sides commute.** -/
theorem diamond {d d₁ d₂ : Duplex α β} (h₁ : d.step .left = some d₁)
    (h₂ : d.step .right = some d₂) :
    ∃ d', d₁.step .right = some d' ∧ d₂.step .left = some d' := by
  obtain ⟨⟨p, inbox, out⟩, hp, rfl⟩ := Option.map_eq_some_iff.mp h₁
  obtain ⟨⟨q, inbox', out'⟩, hq, rfl⟩ := Option.map_eq_some_iff.mp h₂
  -- both sides can move, so neither is done
  have hl : d.left.isDone = false := Proc.isDone_of_move (by rw [hp]; simp)
  have hr : d.right.isDone = false := Proc.isDone_of_move (by rw [hq]; simp)
  rw [hr] at hp
  rw [hl] at hq
  refine ⟨⟨p, q, inbox' ++ out, inbox ++ out'⟩, ?_, ?_⟩
  · simp [step, Proc.move_append hq out]
  · simp [step, Proc.move_append hp out']

theorem diamond_of_ne {d d₁ d₂ : Duplex α β} {x y : Side} (hne : x ≠ y)
    (h₁ : d.step x = some d₁) (h₂ : d.step y = some d₂) :
    ∃ d', d₁.step y = some d' ∧ d₂.step x = some d' := by
  cases x <;> cases y
  · exact absurd rfl hne
  · exact diamond h₁ h₂
  · obtain ⟨d', h, h'⟩ := diamond h₂ h₁
    exact ⟨d', h', h⟩
  · exact absurd rfl hne

/-- A first move does not change where the run ends. -/
theorem run_of_step {d d' e : Duplex α β} {side : Side} {sides : List Side}
    (hd : d.step side = some d') (he : run step d sides = some e) (hstuck : e.Stuck) :
    ∃ sides', sides'.length + 1 = sides.length ∧ run step d' sides' = some e := by
  induction sides generalizing d d' with
  | nil =>
    injection he with he
    rw [← he] at hstuck
    rw [hstuck side] at hd
    cases hd
  | cons x sides ih =>
    obtain ⟨d₁, hx, hrun⟩ := run_cons_eq_some.mp he
    by_cases hxs : x = side
    · subst hxs
      rw [hx] at hd
      injection hd with hd
      subst hd
      exact ⟨sides, rfl, hrun⟩
    · obtain ⟨d₂, h₁, h₂⟩ := diamond_of_ne hxs hx hd
      obtain ⟨sides', hlen, hrun'⟩ := ih h₁ hrun
      exact ⟨x :: sides', by simp [hlen], run_cons_eq_some.mpr ⟨d₂, h₂, hrun'⟩⟩

/-- **One end.** If one run ends, every run can be continued to the same end. -/
theorem run_of_ended {d d' e : Duplex α β} {sides done : List Side}
    (he : run step d sides = some e) (hstuck : e.Stuck) (hd : run step d done = some d') :
    ∃ sides', done.length + sides'.length = sides.length ∧ run step d' sides' = some e := by
  induction done generalizing d sides with
  | nil =>
    injection hd with hd
    subst hd
    exact ⟨sides, Nat.zero_add _, he⟩
  | cons x done ih =>
    obtain ⟨d₁, hx, hdone⟩ := run_cons_eq_some.mp hd
    obtain ⟨sides₁, hlen₁, hrun₁⟩ := run_of_step hx he hstuck
    obtain ⟨sides', hlen, hrun⟩ := ih hrun₁ hdone
    exact ⟨sides', by simp only [List.length_cons]; omega, hrun⟩

/-- A run that cannot go on is at that end. -/
theorem eq_of_stuck {d d' e : Duplex α β} {sides done : List Side}
    (he : run step d sides = some e) (hstuck : e.Stuck) (hd : run step d done = some d')
    (hstuck' : d'.Stuck) : d' = e := by
  obtain ⟨sides', -, hrun⟩ := run_of_ended he hstuck hd
  cases sides' with
  | nil => injection hrun
  | cons x sides' =>
    obtain ⟨d₁, hx, -⟩ := run_cons_eq_some.mp hrun
    rw [hstuck' x] at hx
    cases hx

end Duplex

end TrafficMonitor
