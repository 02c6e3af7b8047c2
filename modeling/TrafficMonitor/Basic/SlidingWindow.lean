import Mathlib.Data.List.Basic
import Mathlib.Order.Basic
import Mathlib.Tactic.Common

/-!
# Sliding windows

Events arrive under keys, at times that do not decrease. An event is accepted if fewer than
`limit` events of its key were accepted less than `width` before it (`verdicts`). A table of queues
of the accepted times tracks this as long as nothing is removed from a queue but times that have
left the window. Proved here:

* `Tracks.prune`: the queues may be pruned at any time;
* `Tracks.length_prune`: the length of a pruned queue is the count of the window;
* `Tracks.accept`: an accepted time goes to the end of its queue;
* `verdicts_filter`: the keys do not influence each other.
-/

namespace TrafficMonitor.SlidingWindow

variable {K : Type*} [DecidableEq K]

/-! ## The window -/

/-- How many events of the key were accepted less than `width` before `now`. -/
def recent (width : Int) (accepted : List (K × Int)) (k : K) (now : Int) : Nat :=
  accepted.countP fun a => a.1 = k ∧ now - a.2 < width

/-- Which events are accepted, after the accepted ones of the past. -/
def verdicts (limit : Nat) (width : Int) : List (K × Int) → List (K × Int) → List Bool
  | _, [] => []
  | accepted, (k, now) :: events =>
    if recent width accepted k now < limit then
      true :: verdicts limit width ((k, now) :: accepted) events
    else false :: verdicts limit width accepted events

theorem recent_filter (width : Int) (accepted : List (K × Int)) (k : K) (now : Int) :
    recent width (accepted.filter (·.1 = k)) k now = recent width accepted k now := by
  rw [recent, recent, List.countP_filter]
  congr 1
  funext a
  by_cases h : a.1 = k <;> simp [h]

theorem recent_cons (width : Int) (accepted : List (K × Int)) (a : K × Int) (k : K) (now : Int) :
    recent width (a :: accepted) k now =
      recent width accepted k now + if a.1 = k ∧ now - a.2 < width then 1 else 0 := by
  rw [recent, List.countP_cons]
  simp [recent]

/-- **Keys.** The decisions on the events of a key are those without the other events. -/
theorem verdicts_filter (limit : Nat) (width : Int) (k : K) (accepted events : List (K × Int)) :
    ((events.zip (verdicts limit width accepted events)).filter (·.1.1 = k)).map Prod.snd =
      verdicts limit width (accepted.filter (·.1 = k)) (events.filter (·.1 = k)) := by
  induction events generalizing accepted with
  | nil => rfl
  | cons e events ih =>
    obtain ⟨k', now⟩ := e
    by_cases hk : k' = k
    · subst hk
      rw [verdicts, List.filter_cons_of_pos (by simp), verdicts, recent_filter]
      split
      · rw [List.zip_cons_cons, List.filter_cons_of_pos (by simp), List.map_cons, ih,
          List.filter_cons_of_pos (by simp)]
      · rw [List.zip_cons_cons, List.filter_cons_of_pos (by simp), List.map_cons, ih]
    · rw [verdicts, List.filter_cons_of_neg (by simpa using hk)]
      split
      · rw [List.zip_cons_cons, List.filter_cons_of_neg (by simpa using hk), ih,
          List.filter_cons_of_neg (by simpa using hk)]
      · rw [List.zip_cons_cons, List.filter_cons_of_neg (by simpa using hk), ih]

/-! ## Queues -/

/-- The queue without the times at its front that have left the window. -/
def prune (width now : Int) (q : List Int) : List Int := q.dropWhile fun t => width ≤ now - t

variable {width now later : Int} {q : List Int}

theorem prune_eq_filter (h : q.Pairwise (· ≤ ·)) :
    prune width now q = q.filter fun t => now - t < width := by
  induction q with
  | nil => rfl
  | cons t q ih =>
    obtain ⟨ht, hq⟩ := List.pairwise_cons.mp h
    rw [prune, List.dropWhile_cons]
    split
    · rename_i hold
      rw [List.filter_cons_of_neg (by simpa using hold)]
      exact ih hq
    · -- the times behind one in the window are in the window
      rename_i hnew
      have hnew : now - t < width := by simpa using hnew
      rw [eq_comm, List.filter_eq_self]
      intro u hu
      rcases List.mem_cons.mp hu with rfl | hu
      · simpa using hnew
      · have := ht u hu
        simp only [decide_eq_true_eq]
        omega

/-- Pruning does not change later windows. -/
theorem countP_prune (h : q.Pairwise (· ≤ ·)) (hle : now ≤ later) :
    (prune width now q).countP (fun t => later - t < width) =
      q.countP fun t => later - t < width := by
  rw [prune_eq_filter h, List.countP_filter]
  congr 1
  funext t
  by_cases ht : later - t < width
  · have : now - t < width := by omega
    simp [ht, this]
  · simp [ht]

/-! ## Tables of queues -/

/-- The queues hold the accepted times in order, but for some that have left the window. -/
structure Tracks (width last : Int) (queues : K → List Int) (accepted : List (K × Int)) : Prop where
  sorted : ∀ k, (queues k).Pairwise (· ≤ ·)
  past : ∀ k, ∀ t ∈ queues k, t ≤ last
  count : ∀ k now, last ≤ now →
    (queues k).countP (fun t => now - t < width) = recent width accepted k now

variable {last : Int} {queues : K → List Int} {accepted : List (K × Int)}

theorem tracks_nil (width last : Int) : Tracks width last (fun _ : K => []) [] :=
  ⟨by simp, by simp, fun _ _ _ => rfl⟩

/-- Any of the queues may be pruned. -/
theorem Tracks.prune (h : Tracks width last queues accepted) (hle : last ≤ now)
    {pruned : K → List Int}
    (hp : ∀ k, pruned k = queues k ∨ pruned k = SlidingWindow.prune width now (queues k)) :
    Tracks width now pruned accepted := by
  refine ⟨fun k => ?_, fun k t ht => ?_, fun k later hlater => ?_⟩
  · rcases hp k with hk | hk
    · rw [hk]
      exact h.sorted k
    · rw [hk]
      exact (h.sorted k).sublist (List.dropWhile_sublist _)
  · refine Int.le_trans (h.past k t ?_) hle
    rcases hp k with hk | hk
    · exact hk ▸ ht
    · rw [hk] at ht
      exact (List.dropWhile_sublist _).subset ht
  · rw [← h.count k later (Int.le_trans hle hlater)]
    rcases hp k with hk | hk
    · rw [hk]
    · rw [hk, countP_prune (h.sorted k) hlater]

theorem Tracks.length_prune (h : Tracks width last queues accepted) (hle : last ≤ now) (k : K) :
    (SlidingWindow.prune width now (queues k)).length = recent width accepted k now := by
  rw [prune_eq_filter (h.sorted k), ← h.count k now hle, List.countP_eq_length_filter]

/-- An accepted time goes to the end of its queue. -/
theorem Tracks.accept (h : Tracks width now queues accepted) (k : K) :
    Tracks width now (Function.update queues k (queues k ++ [now])) ((k, now) :: accepted) := by
  refine ⟨fun k' => ?_, fun k' t ht => ?_, fun k' later hlater => ?_⟩
  · by_cases hk : k' = k
    · subst hk
      rw [Function.update_self, List.pairwise_append]
      refine ⟨h.sorted k', List.pairwise_singleton _ _, fun t ht u hu => ?_⟩
      rw [List.mem_singleton.mp hu]
      exact h.past k' t ht
    · rw [Function.update_of_ne hk]
      exact h.sorted k'
  · by_cases hk : k' = k
    · subst hk
      rw [Function.update_self] at ht
      rcases List.mem_append.mp ht with ht | ht
      · exact h.past k' t ht
      · exact Int.le_of_eq (List.mem_singleton.mp ht)
    · rw [Function.update_of_ne hk] at ht
      exact h.past k' t ht
  · rw [recent_cons, ← h.count k' later hlater]
    by_cases hk : k' = k
    · subst hk
      rw [Function.update_self, List.countP_append, List.countP_singleton]
      simp
    · rw [Function.update_of_ne hk]
      simp [Ne.symm hk]

end TrafficMonitor.SlidingWindow
