import Mathlib.Data.List.Induction
import Mathlib.Tactic.Common

/-!
# Addresses that repeat across sites

Hosts take up addresses; an address means one host within a site, and may be in use at
many sites at once. A host belongs to the site it named last, and a host that named none
is alone. `Registry` keeps one table for each scope; `flat` is the one table, last writer
wins, that ignores scopes.

Proved here, for every history of announcements:

* `holder_scope`: a table holds hosts of its own scope only;
* `flat_eq_lookup`: the flat table answers as the scoped registry does, for an address
  that was free in all other scopes when it was last taken up and is so now;
* `lookup_own`: what a host looks up depends on the announcements of its own site alone.
-/

namespace TrafficMonitor.Scoped

set_option linter.unusedSectionVars false

variable {Host Addr Site : Type*}

/-- A host joins a site, or none, giving up its addresses; or it takes up an address. -/
inductive Announcement (Host Addr Site : Type*)
  | joins (h : Host) (site : Option Site)
  | holds (h : Host) (a : Addr)
  deriving DecidableEq

def Announcement.host : Announcement Host Addr Site → Host
  | .joins h _ => h
  | .holds h _ => h

inductive Scope (Host Site : Type*)
  | site (x : Site)
  | solo (h : Host)
  deriving DecidableEq

/-- The site of each host, and who holds an address in each scope. -/
structure Registry (Host Addr Site : Type*) where
  siteOf : Host → Option Site
  holder : Scope Host Site → Addr → Option Host

def Registry.empty : Registry Host Addr Site := ⟨fun _ => none, fun _ _ => none⟩

def Registry.scopeOf (r : Registry Host Addr Site) (h : Host) : Scope Host Site :=
  (r.siteOf h).elim (.solo h) .site

variable [DecidableEq Host] [DecidableEq Addr] [DecidableEq Site]

/-- A table without the entries of one host. -/
def withdraw (h : Host) (t : Addr → Option Host) : Addr → Option Host :=
  fun a => (t a).filter (· ≠ h)

def Registry.apply (r : Registry Host Addr Site) : Announcement Host Addr Site → Registry Host Addr Site
  | .joins h x => ⟨Function.update r.siteOf h x, fun g => withdraw h (r.holder g)⟩
  | .holds h a =>
    let g := r.scopeOf h
    ⟨r.siteOf, Function.update r.holder g (Function.update (r.holder g) a (some h))⟩

abbrev History (Host Addr Site : Type*) := List (Announcement Host Addr Site)

def after (es : History Host Addr Site) : Registry Host Addr Site :=
  es.foldl Registry.apply Registry.empty

/-- Whom a host finds under an address: a host of its own scope. -/
def lookup (es : History Host Addr Site) (h : Host) (a : Addr) : Option Host :=
  (after es).holder ((after es).scopeOf h) a

def flatApply (t : Addr → Option Host) : Announcement Host Addr Site → Addr → Option Host
  | .joins h _ => withdraw h t
  | .holds h a => Function.update t a (some h)

/-- One table for all scopes, last writer wins. -/
def flat (es : History Host Addr Site) : Addr → Option Host := es.foldl flatApply fun _ => none

/-- No host of another scope than `g` holds the address. -/
def FreeElsewhere (es : History Host Addr Site) (g : Scope Host Site) (a : Addr) : Prop :=
  ∀ g' ≠ g, (after es).holder g' a = none

/-- When the address was last taken up, it was free in all other scopes. -/
def Separate (es : History Host Addr Site) (a : Addr) : Prop :=
  ∀ es₁ h es₂, es = es₁ ++ .holds h a :: es₂ → (∀ h', .holds h' a ∉ es₂) →
    FreeElsewhere es₁ ((after es₁).scopeOf h) a

/-! ## One announcement -/

theorem withdraw_eq_some {h k : Host} {t : Addr → Option Host} {a : Addr} :
    withdraw h t a = some k ↔ t a = some k ∧ k ≠ h := by
  simp [withdraw, Option.filter_eq_some_iff]

@[simp] theorem after_nil : after ([] : History Host Addr Site) = Registry.empty := rfl

@[simp] theorem after_snoc (es : History Host Addr Site) (e : Announcement Host Addr Site) :
    after (es ++ [e]) = (after es).apply e := by
  simp [after]

@[simp] theorem flat_snoc (es : History Host Addr Site) (e : Announcement Host Addr Site) :
    flat (es ++ [e]) = flatApply (flat es) e := by
  simp [flat]

theorem scopeOf_update_ne {r : Registry Host Addr Site} {h k : Host} {x : Option Site}
    {t : Scope Host Site → Addr → Option Host} (hk : k ≠ h) :
    Registry.scopeOf ⟨Function.update r.siteOf h x, t⟩ k = r.scopeOf k := by
  simp [Registry.scopeOf, Function.update_of_ne hk]

theorem holder_holds {r : Registry Host Addr Site} {h : Host} {a b : Addr} {g : Scope Host Site} :
    (r.apply (.holds h a)).holder g b =
      if g = r.scopeOf h ∧ b = a then some h else r.holder g b := by
  simp only [Registry.apply, Function.update_apply]
  by_cases hg : g = r.scopeOf h
  · subst hg
    simp [Function.update_apply]
  · simp [hg]

@[simp] theorem scopeOf_holds {r : Registry Host Addr Site} {h k : Host} {a : Addr} :
    (r.apply (.holds h a)).scopeOf k = r.scopeOf k := rfl

/-- A table holds hosts of its own scope only. -/
theorem holder_scope (es : History Host Addr Site) {g : Scope Host Site} {a : Addr} {h : Host}
    (hh : (after es).holder g a = some h) : (after es).scopeOf h = g := by
  induction es using List.reverseRecOn generalizing h with
  | nil => simp [Registry.empty] at hh
  | append_singleton es e ih =>
    rw [after_snoc] at hh ⊢
    cases e with
    | joins k x =>
      obtain ⟨hh, hk⟩ := withdraw_eq_some.mp hh
      simpa [Registry.apply, scopeOf_update_ne hk] using ih hh
    | holds k b =>
      rw [holder_holds] at hh
      split at hh
      · rename_i hg
        cases hh
        exact hg.1.symm
      · exact ih hh

/-! ## The flat table -/

/-- An address that was not taken up last keeps its standing. -/
theorem separate_of_snoc {es : History Host Addr Site} {e : Announcement Host Addr Site} {a : Addr}
    (he : ∀ h, e ≠ .holds h a) (hs : Separate (es ++ [e]) a) : Separate es a := by
  intro es₁ h es₂ hes hlast
  refine hs es₁ h (es₂ ++ [e]) (by simp [hes]) ?_
  intro h' hmem
  rcases List.mem_append.mp hmem with hmem | hmem
  · exact hlast h' hmem
  · exact he h' (List.mem_singleton.mp hmem).symm

/-- For a separate address the flat table and the scoped tables hold the same entries. -/
theorem holder_iff_flat {es : History Host Addr Site} {a : Addr} (hs : Separate es a)
    (g : Scope Host Site) (h : Host) :
    (after es).holder g a = some h ↔ flat es a = some h ∧ (after es).scopeOf h = g := by
  induction es using List.reverseRecOn generalizing g h with
  | nil => simp [Registry.empty, flat]
  | append_singleton es e ih =>
    rw [after_snoc, flat_snoc]
    cases e with
    | joins k x =>
      have ih := ih (separate_of_snoc (by simp) hs) g h
      simp only [Registry.apply, flatApply, withdraw_eq_some, ih]
      by_cases hk : h = k
      · simp [hk]
      · simp [hk, scopeOf_update_ne hk]
    | holds k b =>
      by_cases hb : b = a
      · subst hb
        -- the address is taken up by this announcement, and free everywhere else
        have hfree := hs es k [] rfl (by simp)
        simp only [holder_holds, scopeOf_holds, flatApply, Function.update_self, Option.some.injEq,
          and_true]
        by_cases hg : g = (after es).scopeOf k
        · simp only [hg, ↓reduceIte, Option.some.injEq]
          exact ⟨fun e => ⟨e, by rw [← e]⟩, fun e => e.1⟩
        · simp only [hg, ↓reduceIte, hfree g hg]
          constructor
          · intro hn
            cases hn
          · rintro ⟨rfl, e⟩
            exact absurd e.symm hg
      · have ih := ih (separate_of_snoc (by simp [hb]) hs) g h
        simp [holder_holds, flatApply, Ne.symm hb, ih]

/-- **The flat table answers as the scoped one** for an address that is separate and free
in all other scopes. -/
theorem flat_eq_lookup {es : History Host Addr Site} {h : Host} {a : Addr} (hs : Separate es a)
    (hf : FreeElsewhere es ((after es).scopeOf h) a) : flat es a = lookup es h a := by
  apply Option.ext
  intro k
  rw [lookup, holder_iff_flat hs]
  constructor
  · intro hk
    refine ⟨hk, ?_⟩
    by_contra hne
    have := (holder_iff_flat hs _ k).mpr ⟨hk, rfl⟩
    rw [hf _ hne] at this
    cases this
  · exact fun hk => hk.1

theorem holds_of_holder {es : History Host Addr Site} {g : Scope Host Site} {a : Addr} {h : Host}
    (hh : (after es).holder g a = some h) : .holds h a ∈ es := by
  induction es using List.reverseRecOn with
  | nil => cases hh
  | append_singleton es e ih =>
    rw [after_snoc] at hh
    cases e with
    | joins k x => simp [ih (withdraw_eq_some.mp hh).1]
    | holds k b =>
      rw [holder_holds] at hh
      split at hh
      · rename_i hg
        cases hh
        simp [hg.2]
      · simp [ih hh]

/-- An address that only one host ever took up is free elsewhere, now and whenever it was
taken up. -/
theorem separate_of_one_holder {es : History Host Addr Site} {a : Addr} {h : Host}
    (hone : ∀ k, .holds k a ∈ es → k = h) :
    FreeElsewhere es ((after es).scopeOf h) a ∧ Separate es a := by
  have hfree : ∀ es' : History Host Addr Site, (∀ k, .holds k a ∈ es' → k = h) →
      FreeElsewhere es' ((after es').scopeOf h) a := by
    intro es' hone' g hg
    cases hk : (after es').holder g a with
    | none => rfl
    | some k =>
      obtain rfl := hone' k (holds_of_holder hk)
      exact absurd (holder_scope es' hk).symm hg
  refine ⟨hfree es hone, ?_⟩
  rintro es₁ k es₂ rfl -
  obtain rfl := hone k (by simp)
  exact hfree es₁ fun j hj => hone j (by simp [hj])

/-! ## What other sites announce -/

/-- `k` is `h` itself, or has named the site that `h` is in. -/
def neighbour (es : History Host Addr Site) (h k : Host) : Bool :=
  k = h || ((after es).siteOf h).any fun x => decide (.joins k (some x) ∈ es)

theorem joins_of_siteOf {es : History Host Addr Site} {h : Host} {x : Site}
    (hx : (after es).siteOf h = some x) : .joins h (some x) ∈ es := by
  induction es using List.reverseRecOn with
  | nil => cases hx
  | append_singleton es e ih =>
    rw [after_snoc] at hx
    cases e with
    | joins k y =>
      by_cases hk : h = k
      · subst hk
        simp only [Registry.apply, Function.update_self] at hx
        simp [hx]
      · simp only [Registry.apply, Function.update_of_ne hk] at hx
        simp [ih hx]
    | holds k b => simp [ih hx]

theorem siteOf_apply_of_ne {r : Registry Host Addr Site} {e : Announcement Host Addr Site} {h : Host}
    (hne : h ≠ e.host) : (r.apply e).siteOf h = r.siteOf h := by
  cases e with
  | joins k x => exact Function.update_of_ne hne _ _
  | holds k b => rfl

/-- An announcement of a host in another scope leaves the table of `g` as it is. -/
theorem holder_apply_of_ne {es : History Host Addr Site} {e : Announcement Host Addr Site}
    {g : Scope Host Site} (hne : (after es).scopeOf e.host ≠ g) :
    ((after es).apply e).holder g = (after es).holder g := by
  funext a
  cases e with
  | joins k x =>
    apply Option.ext
    intro h
    simp only [Registry.apply, withdraw_eq_some, and_iff_left_iff_imp]
    rintro hh rfl
    exact hne (holder_scope es hh)
  | holds k b =>
    rw [holder_holds, if_neg]
    rintro ⟨rfl, -⟩
    exact hne rfl

/-- Announcements of hosts that were never in scope `g` do not matter to its table. -/
theorem holder_filter (es : History Host Addr Site) (g : Scope Host Site) (keep : Host → Bool)
    (hsolo : ∀ h, g = .solo h → keep h = true)
    (hsite : ∀ h x, g = .site x → .joins h (some x) ∈ es → keep h = true) :
    (after (es.filter fun e => keep e.host)).holder g = (after es).holder g ∧
      ∀ h, keep h = true →
        (after (es.filter fun e => keep e.host)).siteOf h = (after es).siteOf h := by
  induction es using List.reverseRecOn with
  | nil => simp
  | append_singleton es e ih =>
    obtain ⟨iht, ihs⟩ := ih fun h x hg hmem => hsite h x hg (by simp [hmem])
    rw [List.filter_append, after_snoc]
    cases hk : keep e.host with
    | true =>
      simp only [hk, List.filter_cons_of_pos, List.filter_nil, after_snoc]
      cases e with
      | joins h x =>
        constructor
        · simp [Registry.apply, iht]
        · intro k hkk
          simp [Registry.apply, Function.update_apply, ihs k hkk]
      | holds h a =>
        have hscope : (after (es.filter fun e => keep e.host)).scopeOf h = (after es).scopeOf h := by
          simp [Registry.scopeOf, ihs h hk]
        constructor
        · funext b
          rw [holder_holds, holder_holds, hscope, iht]
        · exact ihs
    | false =>
      simp only [hk, Bool.false_eq_true, not_false_eq_true, List.filter_cons_of_neg,
        List.filter_nil, List.append_nil]
      -- a host that is left out is not in scope `g`
      have hout : (after es).scopeOf e.host ≠ g := by
        intro hg
        have hkeep : keep e.host = true := by
          cases hx : (after es).siteOf e.host with
          | none => exact hsolo e.host (by rw [← hg]; simp [Registry.scopeOf, hx])
          | some x =>
            have hmem : .joins e.host (some x) ∈ es ++ [e] := by simp [joins_of_siteOf hx]
            exact hsite e.host x (by rw [← hg]; simp [Registry.scopeOf, hx]) hmem
        rw [hk] at hkeep
        cases hkeep
      refine ⟨iht.trans (holder_apply_of_ne hout).symm, fun h hh => ?_⟩
      rw [ihs h hh, siteOf_apply_of_ne]
      rintro rfl
      rw [hk] at hh
      cases hh

/-- **Other sites do not matter.** What a host looks up is the same when all announcements
of hosts that never named its site are taken out of the history. -/
theorem lookup_own (es : History Host Addr Site) (h : Host) (a : Addr) :
    lookup (es.filter fun e => neighbour es h e.host) h a = lookup es h a := by
  obtain ⟨ht, hs⟩ := holder_filter es ((after es).scopeOf h) (neighbour es h)
    (by
      intro k hk
      cases hx : (after es).siteOf h with
      | none =>
        simp only [Registry.scopeOf, hx, Option.elim_none, Scope.solo.injEq] at hk
        simp [neighbour, hk]
      | some x => simp [Registry.scopeOf, hx] at hk)
    (by
      intro k x hk hmem
      cases hx : (after es).siteOf h with
      | none => simp [Registry.scopeOf, hx] at hk
      | some y =>
        simp only [Registry.scopeOf, hx, Option.elim_some, Scope.site.injEq] at hk
        simp [neighbour, hx, hk, hmem])
  have hself : (after (es.filter fun e => neighbour es h e.host)).siteOf h = (after es).siteOf h :=
    hs h (by simp [neighbour])
  simp only [lookup, Registry.scopeOf, hself] at ht ⊢
  rw [ht]

end TrafficMonitor.Scoped
