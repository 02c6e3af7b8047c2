import Mathlib.Data.List.Basic
import Mathlib.Order.Lattice
import Mathlib.Tactic.Common

/-!
# Fixed windows

Events arrive under keys, and the first `limit` of each key are admitted (`admitted`). When a key
is a source and the second of the event, one counter for each source is enough: it starts again
whenever the second is another one.

Proved here:

* `countP_admitted`: what is admitted of a key;
* `filter_admitted`: events whose keys stay within the limit are all admitted;
* `Tracks.tick`: while the clock does not go back, the counter knows the events of the second.
-/

namespace TrafficMonitor.FixedWindow

/-! ## What is admitted -/

section Admitted

variable {E K : Type*} [DecidableEq K]

/-- The first `limit` events of each key, `past` being the events before. -/
def admitted (limit : Nat) (key : E → K) : List E → List E → List E
  | _, [] => []
  | past, e :: es =>
    if past.countP (key · = key e) < limit then e :: admitted limit key (past ++ [e]) es
    else admitted limit key (past ++ [e]) es

variable (limit : Nat) (key : E → K)

theorem admitted_singleton (past : List E) (e : E) : admitted limit key past [e] =
    if past.countP (key · = key e) < limit then [e] else [] := rfl

theorem admitted_append (past es fs : List E) : admitted limit key past (es ++ fs) =
    admitted limit key past es ++ admitted limit key (past ++ es) fs := by
  induction es generalizing past with
  | nil => simp [admitted]
  | cons e es ih =>
    rw [List.cons_append, admitted, admitted, ih]
    split <;> simp

/-- **The count of a key**, as far as the limit goes. -/
theorem countP_admitted (past es : List E) (k : K) :
    (admitted limit key past es).countP (key · = k) =
      min (limit - past.countP (key · = k)) (es.countP (key · = k)) := by
  induction es generalizing past with
  | nil => simp [admitted]
  | cons e es ih =>
    have hpast : (past ++ [e]).countP (key · = k) =
        past.countP (key · = k) + if key e = k then 1 else 0 := by simp [List.countP_singleton]
    rw [admitted]
    split
    next h =>
      rw [List.countP_cons, List.countP_cons, ih, hpast]
      by_cases hk : key e = k
      · subst hk
        simp only [decide_true, if_true]
        omega
      · simp [hk]
    next h =>
      rw [ih, hpast, List.countP_cons]
      by_cases hk : key e = k
      · subst hk
        simp only [decide_true, if_true]
        omega
      · simp [hk]

/-- **Within the limit** everything is admitted. -/
theorem filter_admitted {p : E → Bool} {past es : List E}
    (h : ∀ e ∈ es, p e = true → (past ++ es).countP (key · = key e) ≤ limit) :
    (admitted limit key past es).filter p = es.filter p := by
  induction es generalizing past with
  | nil => rfl
  | cons e es ih =>
    have htail := @ih (past ++ [e]) fun f hf hp => by
      simpa using h f (List.mem_cons_of_mem e hf) hp
    rw [admitted, List.filter_cons]
    split
    · rw [List.filter_cons, htail]
    next hfull =>
      have hp : ¬p e = true := fun hp => hfull (by
        have := h e (by simp) hp
        rw [List.countP_append, List.countP_cons] at this
        simp only [decide_true, if_true] at this
        omega)
      rw [if_neg hp, htail]

end Admitted

/-! ## The counter of a source -/

section Counter

variable {T : Type*} [LinearOrder T]

structure Counter (T : Type*) where
  last : T
  count : Nat

/-- The events of this second so far. -/
def Counter.sofar (c : Counter T) (t : T) : Nat := if t ≠ c.last then 0 else c.count

def Counter.tick (c : Counter T) (t : T) : Counter T := ⟨t, c.sofar t + 1⟩

/-- The counter is right for every second that can still come. -/
def Tracks (past : List T) (c : Counter T) : Prop :=
  ∀ t, (∀ x ∈ past, x ≤ t) → c.sofar t = past.count t

theorem tracks_nil (t : T) : Tracks [] ⟨t, 0⟩ := by
  intro u _
  simp [Counter.sofar]

theorem Tracks.tick {past : List T} {c : Counter T} (h : Tracks past c) {t : T}
    (ht : ∀ x ∈ past, x ≤ t) : Tracks (past ++ [t]) (c.tick t) := by
  intro u hu
  rw [List.count_append, List.count_singleton, Counter.sofar]
  by_cases htu : u = t
  · subst htu
    simp [Counter.tick, h u ht]
  · have hlt : t < u := lt_of_le_of_ne (hu t (by simp)) (Ne.symm htu)
    have hnone : past.count u = 0 :=
      List.count_eq_zero.mpr fun hmem => absurd (ht u hmem) (not_le.mpr hlt)
    simp [Counter.tick, htu, hnone, Ne.symm htu]

end Counter

end TrafficMonitor.FixedWindow
