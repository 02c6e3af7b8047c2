import TrafficMonitor.Basic.Runs
import Mathlib.Data.List.Induction

/-!
# Tickets that are used once

A system keeps tickets under keys. A step may issue a ticket or use a key up; the law
(`Lawful`) is that a ticket that is held after a step was issued by it, or was held before
and its key is not touched by it. Proved here, for every run:

* `lastIssued_of_held`: a ticket that is held is the last one issued for its key, and the
  key has not been touched since;
* `held_eq_none_of_run`: a key without a ticket has none until one is issued;
* `wins_le_one`: between two issues for a key, at most one step wins by its ticket.
-/

namespace TrafficMonitor.Tickets

open Runs

variable {σ α K P : Type*}

/-- Where the tickets are, and which actions issue them and touch their keys. -/
structure Desk (σ α K P : Type*) where
  step : σ → α → Option σ
  held : σ → K → Option P
  issues : α → K → P → Prop
  touches : α → K → Prop

variable (d : Desk σ α K P)

structure Desk.Lawful : Prop where
  law : ∀ s a s' k p, d.step s a = some s' → d.held s' k = some p →
    d.issues a k p ∨ (d.held s k = some p ∧ ¬d.touches a k)

/-- The ticket was issued for the key, which has not been touched since. -/
def Desk.LastIssued (as : List α) (k : K) (p : P) : Prop :=
  ∃ before a since, as = before ++ a :: since ∧ d.issues a k p ∧ ∀ b ∈ since, ¬d.touches b k

/-- No ticket is issued for the key. -/
def Desk.NoIssue (k : K) (as : List α) : Prop := ∀ a ∈ as, ∀ p, ¬d.issues a k p

/-- How many steps of a run win. -/
def Desk.wins (won : σ → α → Bool) : σ → List α → Nat
  | _, [] => 0
  | s, a :: as => (if won s a then 1 else 0) + match d.step s a with
    | none => 0
    | some s' => Desk.wins won s' as

variable {d} {s s' t : σ} {a : α} {as : List α} {k : K} {p : P} (hl : d.Lawful)
include hl

theorem lastIssued_of_held (hs : ∀ k, d.held s k = none) (hr : run d.step s as = some t)
    (h : d.held t k = some p) : d.LastIssued as k p := by
  induction as using List.reverseRecOn generalizing t with
  | nil =>
    cases hr
    rw [hs k] at h
    cases h
  | append_singleton as a ih =>
    obtain ⟨t₀, hr, hstep⟩ := run_snoc_eq_some.mp hr
    rcases hl.law _ _ _ _ _ hstep h with hi | ⟨h₀, hu⟩
    · exact ⟨as, a, [], rfl, hi, by simp⟩
    · obtain ⟨before, b, since, rfl, hi, hsince⟩ := ih hr h₀
      refine ⟨before, b, since ++ [a], by simp, hi, ?_⟩
      intro c hc
      rcases List.mem_append.mp hc with hc | hc
      · exact hsince c hc
      · exact List.mem_singleton.mp hc ▸ hu

/-- A step that touches a key and issues nothing for it uses its ticket up. -/
theorem held_eq_none_of_touch (hstep : d.step s a = some s') (hu : d.touches a k)
    (hn : ∀ p, ¬d.issues a k p) : d.held s' k = none := by
  cases h : d.held s' k with
  | none => rfl
  | some p =>
    rcases hl.law _ _ _ _ _ hstep h with hi | ⟨-, hu'⟩
    · exact absurd hi (hn p)
    · exact absurd hu hu'

theorem held_eq_none_of_step (h : d.held s k = none) (hstep : d.step s a = some s')
    (hn : ∀ p, ¬d.issues a k p) : d.held s' k = none := by
  cases h' : d.held s' k with
  | none => rfl
  | some p =>
    rcases hl.law _ _ _ _ _ hstep h' with hi | ⟨h₀, -⟩
    · exact absurd hi (hn p)
    · rw [h] at h₀
      cases h₀

theorem held_eq_none_of_run (h : d.held s k = none) (hr : run d.step s as = some t)
    (hn : d.NoIssue k as) : d.held t k = none := by
  induction as generalizing s with
  | nil => cases hr; exact h
  | cons a as ih =>
    obtain ⟨s', hstep, hr⟩ := run_cons_eq_some.mp hr
    exact ih (held_eq_none_of_step hl h hstep (hn a (by simp))) hr
      fun b hb => hn b (List.mem_cons_of_mem _ hb)

variable {won : σ → α → Bool}
  (hw : ∀ s a, won s a = true → d.touches a k ∧ (d.held s k).isSome)
include hw

theorem wins_eq_zero (h : d.held s k = none) (hn : d.NoIssue k as) : d.wins won s as = 0 := by
  induction as generalizing s with
  | nil => rfl
  | cons a as ih =>
    have hwon : won s a = false := by
      cases hwon : won s a with
      | false => rfl
      | true => simpa [h] using (hw s a hwon).2
    cases hstep : d.step s a with
    | none => simp [Desk.wins, hwon, hstep]
    | some s' =>
      have := ih (held_eq_none_of_step hl h hstep (hn a (by simp)))
        fun b hb => hn b (List.mem_cons_of_mem _ hb)
      simp [Desk.wins, hwon, hstep, this]

/-- **Once.** A step wins by holding the ticket of a key and touching the key. -/
theorem wins_le_one (hn : d.NoIssue k as) : d.wins won s as ≤ 1 := by
  induction as generalizing s with
  | nil => exact Nat.zero_le _
  | cons a as ih =>
    have hn' : d.NoIssue k as := fun b hb => hn b (List.mem_cons_of_mem _ hb)
    cases hstep : d.step s a with
    | none =>
      simp only [Desk.wins, hstep]
      split <;> omega
    | some s' =>
      cases hwon : won s a with
      | false => simpa [Desk.wins, hstep, hwon] using ih hn'
      | true =>
        have hnone := held_eq_none_of_touch hl hstep (hw s a hwon).1 (hn a (by simp))
        have := wins_eq_zero hl hw hnone hn'
        simp [Desk.wins, hstep, hwon, this]

end TrafficMonitor.Tickets
