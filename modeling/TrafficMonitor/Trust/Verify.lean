import Mathlib.Data.List.Nodup
import Mathlib.Data.List.Perm.Subperm
import TrafficMonitor.Trust.Bundle

/-!
# Verification of a binary against its bundle (`trust.hpp`)

Signature verification and the recognition of a key's encoding are parameters of the
model. `verifyBundleWithRoots` is the code. `Trusted` says what it means for a binary to
be trusted: a printed bundle carries a printed delegation, enough distinct roots have
signed the delegation, and one of its keys has signed the binary for the platform.

Proved here:

* `validRootSigs_eq`: the code counts each root that has signed the document once;
* `verify_eq_ok`: what the code accepts and what it returns;
* `accepted_iff_trusted`: it accepts exactly the trusted binaries whose delegation has a
  version from 1 up to 10^18 and an expiry from the year 2000 on.
-/

namespace TrafficMonitor.Trust

open Bytes

/-! ## The code -/

/-- What the crypto library answers: for data, a signature and a key; and for a key. -/
structure Crypto where
  verifySignatureWithKeyBytes : Bytes → Bytes → Bytes → Except Bytes Unit
  isMlDsa65Spki : Bytes → Bool

structure RootKey where
  id : Bytes
  der : Bytes
  deriving DecidableEq

structure RootSet where
  keys : List RootKey
  threshold : Nat

structure Policy where
  checkExpiry : Bool
  now : Int
  minVersion : Nat

structure Verified where
  delegationVersion : Nat
  expires : Int
  keyId : Bytes
  keySpki : Bytes
  deriving DecidableEq

def Crypto.verifies (c : Crypto) (data sig key : Bytes) : Bool :=
  (c.verifySignatureWithKeyBytes data sig key).toBool

/-- The inner loop over the roots: only the first root with the id is asked. -/
def rootVerifies (c : Crypto) (doc : Bytes) (sig : Bytes × Bytes) : List RootKey → Bool
  | [] => false
  | rk :: keys =>
    if sig.1 ≠ rk.id then rootVerifies c doc sig keys else c.verifies doc sig.2 rk.der

/-- The variable `valid` after the outer loop. -/
def validRootSigs (c : Crypto) (roots : RootSet) (b : Bundle) : Nat :=
  b.rootSigs.foldl
    (fun valid sig => if rootVerifies c b.document sig roots.keys then valid + 1 else valid) 0

def verifyBundleWithRoots (c : Crypto) (binary bundleBytes platform : Bytes) (roots : RootSet)
    (policy : Policy) : Except Bytes Verified := do
  let b ← parseBundle bundleBytes
  let valid := validRootSigs c roots b
  if roots.threshold = 0 || valid < roots.threshold then
    .error (ascii "delegation has " ++ decimal valid ++ ascii " valid root signature(s); " ++
      decimal roots.threshold ++ ascii " required")
  else
    let d ← parseDelegation c.isMlDsa65Spki b.document
    if policy.checkExpiry && d.expires ≤ policy.now then
      .error (ascii "delegation v" ++ decimal d.version ++ ascii " has expired")
    else if d.version < policy.minVersion then
      .error (ascii "delegation v" ++ decimal d.version ++ ascii " is older than v" ++
        decimal policy.minVersion ++ ascii " (rollback rejected)")
    else match d.keys.find? fun k => k.id = b.keyId with
    | none => .error (ascii "key '" ++ b.keyId ++ ascii "' is not in the delegation")
    | some key =>
      if key.platform ≠ platform then
        .error (ascii "key '" ++ b.keyId ++ ascii "' is scoped to " ++ key.platform ++
          ascii ", not " ++ platform)
      else match c.verifySignatureWithKeyBytes binary b.signature key.spki with
      | .error e => .error (ascii "binary signature: " ++ e)
      | .ok () => .ok ⟨d.version, d.expires, key.id, key.spki⟩

/-! ## Trust -/

/-- The root has a valid signature over exactly the document of the bundle. -/
def Signed (c : Crypto) (b : Bundle) (r : RootKey) : Prop :=
  ∃ sig, (r.id, sig) ∈ b.rootSigs ∧ c.verifies b.document sig r.der = true

/-- Enough distinct roots have signed. -/
def Quorum (c : Crypto) (roots : RootSet) (b : Bundle) : Prop :=
  0 < roots.threshold ∧ ∃ signers : List RootKey, signers.Nodup ∧
    roots.threshold ≤ signers.length ∧ ∀ r ∈ signers, r ∈ roots.keys ∧ Signed c b r

/-- The bundle `b` with the delegation `d` vouches for the binary through the key `k`. -/
structure Vouches (c : Crypto) (binary bundleBytes platform : Bytes) (roots : RootSet)
    (policy : Policy) (b : Bundle) (d : Document) (k : DelegatedKey) : Prop where
  size : bundleBytes.length ≤ kMaxBundleBytes
  bundle : b.WellFormed ∧ bundleBytes = b.text
  document : d.WellFormed c.isMlDsa65Spki ∧ b.document = d.text
  quorum : Quorum c roots b
  fresh : policy.checkExpiry = true → policy.now < d.expires.unix
  floor : policy.minVersion ≤ d.version
  key : k ∈ d.keys ∧ k.id = b.keyId ∧ k.platform = platform
  signature : c.verifies binary b.signature k.spki = true

/-- Some bundle and delegation in the grammar vouch for the binary. -/
def Trusted (c : Crypto) (binary bundleBytes platform : Bytes) (roots : RootSet)
    (policy : Policy) : Prop :=
  ∃ b d k, Vouches c binary bundleBytes platform roots policy b d k

def Accepts (c : Crypto) (binary bundleBytes platform : Bytes) (roots : RootSet)
    (policy : Policy) : Prop :=
  ∃ v, verifyBundleWithRoots c binary bundleBytes platform roots policy = .ok v

/-! ## Counting the roots -/

variable {c : Crypto}

private theorem rootVerifies_iff {doc : Bytes} {sig : Bytes × Bytes} {keys : List RootKey}
    (h : (keys.map (·.id)).Nodup) : rootVerifies c doc sig keys = true ↔
      ∃ r ∈ keys, r.id = sig.1 ∧ c.verifies doc sig.2 r.der = true := by
  induction keys with
  | nil => simp [rootVerifies]
  | cons rk keys ih =>
    rw [List.map_cons, List.nodup_cons] at h
    unfold rootVerifies
    by_cases he : sig.1 = rk.id
    · rw [if_neg (not_not.mpr he)]
      constructor
      · intro hv
        exact ⟨rk, by simp, he.symm, hv⟩
      · rintro ⟨r, hr, hid, hv⟩
        rcases List.mem_cons.mp hr with rfl | hr
        · exact hv
        · exact absurd (List.mem_map.mpr ⟨r, hr, hid.trans he⟩) h.1
    · rw [if_pos he, ih h.2]
      constructor
      · rintro ⟨r, hr, hv⟩
        exact ⟨r, List.mem_cons_of_mem _ hr, hv⟩
      · rintro ⟨r, hr, hid, hv⟩
        rcases List.mem_cons.mp hr with rfl | hr
        · exact absurd hid.symm he
        · exact ⟨r, hr, hid, hv⟩

private theorem foldl_count {α : Type} (p : α → Bool) (l : List α) (n : Nat) :
    l.foldl (fun valid x => if p x then valid + 1 else valid) n = n + (l.filter p).length := by
  induction l generalizing n with
  | nil => rfl
  | cons x l ih =>
    rw [List.foldl_cons, ih, List.filter_cons]
    split
    · rw [List.length_cons]
      omega
    · rfl

def signed (c : Crypto) (b : Bundle) (r : RootKey) : Bool :=
  b.rootSigs.any fun p => p.1 = r.id && c.verifies b.document p.2 r.der

private theorem signed_iff {b : Bundle} {r : RootKey} : signed c b r = true ↔ Signed c b r := by
  simp only [signed, Signed, List.any_eq_true, Bool.and_eq_true, decide_eq_true_eq]
  constructor
  · rintro ⟨⟨id, sig⟩, hp, rfl, hv⟩
    exact ⟨sig, hp, hv⟩
  · rintro ⟨sig, hp, hv⟩
    exact ⟨_, hp, rfl, hv⟩

/-- Each root that has signed is counted once: the signatures that count and the roots that
have signed have the same ids. -/
theorem validRootSigs_eq {roots : RootSet} {b : Bundle} (hr : (roots.keys.map (·.id)).Nodup)
    (hb : (b.rootSigs.map (·.1)).Nodup) :
    validRootSigs c roots b = (roots.keys.filter (signed c b)).length := by
  rw [validRootSigs, foldl_count, Nat.zero_add]
  have hs := (List.filter_sublist (p := fun sig => rootVerifies c b.document sig roots.keys)
    (l := b.rootSigs)).map (·.1) |>.nodup hb
  have hk := (List.filter_sublist (p := signed c b) (l := roots.keys)).map (·.id) |>.nodup hr
  have hp : ((b.rootSigs.filter fun sig => rootVerifies c b.document sig roots.keys).map
      (·.1)).Perm ((roots.keys.filter (signed c b)).map (·.id)) := by
    rw [List.perm_ext_iff_of_nodup hs hk]
    intro id
    simp only [List.mem_map, List.mem_filter, rootVerifies_iff hr, signed_iff]
    constructor
    · rintro ⟨⟨i, sig⟩, ⟨hm, r, hr, hid, hv⟩, rfl⟩
      exact ⟨r, ⟨hr, sig, hid ▸ hm, hv⟩, hid⟩
    · rintro ⟨r, ⟨hr, sig, hm, hv⟩, rfl⟩
      exact ⟨(r.id, sig), ⟨hm, r, hr, rfl, hv⟩, rfl⟩
  simpa using hp.length_eq

private theorem quorum_iff {roots : RootSet} {b : Bundle} (hr : (roots.keys.map (·.id)).Nodup)
    (hb : (b.rootSigs.map (·.1)).Nodup) :
    Quorum c roots b ↔ 0 < roots.threshold ∧ roots.threshold ≤ validRootSigs c roots b := by
  rw [validRootSigs_eq hr hb]
  constructor
  · rintro ⟨hpos, signers, hn, hle, hall⟩
    have hsub : signers ⊆ roots.keys.filter (signed c b) := by
      intro r hm
      rw [List.mem_filter]
      exact ⟨(hall r hm).1, signed_iff.mpr (hall r hm).2⟩
    exact ⟨hpos, hle.trans (List.subperm_of_subset hn hsub).length_le⟩
  · rintro ⟨hpos, hle⟩
    refine ⟨hpos, _, List.filter_sublist.nodup (List.Nodup.of_map _ hr), hle, ?_⟩
    intro r hm
    rw [List.mem_filter] at hm
    exact ⟨hm.1, signed_iff.mp hm.2⟩

/-! ## Acceptance -/

private theorem find?_key {keys : List DelegatedKey} {id : Bytes} {k : DelegatedKey}
    (h : (keys.map (·.id)).Nodup) :
    (keys.find? fun k => k.id = id) = some k ↔ k ∈ keys ∧ k.id = id := by
  constructor
  · intro hf
    exact ⟨List.mem_of_find?_eq_some hf, by simpa using List.find?_some hf⟩
  · rintro ⟨hk, rfl⟩
    cases hf : keys.find? fun j => j.id = k.id with
    | none => exact absurd (List.find?_eq_none.mp hf k hk) (by simp)
    | some j =>
      have hj : j.id = k.id := by simpa using List.find?_some hf
      rw [List.inj_on_of_nodup_map h (List.mem_of_find?_eq_some hf) hk hj]

private theorem verifies_iff {data sig key : Bytes} : c.verifies data sig key = true ↔
    c.verifySignatureWithKeyBytes data sig key = .ok () := by
  unfold Crypto.verifies
  cases c.verifySignatureWithKeyBytes data sig key <;> simp [Except.toBool]

theorem nodup_of_ascending {b : Bundle} (h : b.WellFormed) : (b.rootSigs.map (·.1)).Nodup := by
  refine h.ascending.imp ?_
  intro x y hlt e
  exact List.lt_irrefl y (e ▸ hlt)

/-- **What is accepted, and what is returned.** -/
theorem verify_eq_ok {binary bundleBytes platform : Bytes} {roots : RootSet} {policy : Policy}
    (hr : (roots.keys.map (·.id)).Nodup) {v : Verified} :
    verifyBundleWithRoots c binary bundleBytes platform roots policy = .ok v ↔
      ∃ b d k, Vouches c binary bundleBytes platform roots policy b d k ∧ d.Supported ∧
        v = ⟨d.version, d.expires.unix, k.id, k.spki⟩ := by
  constructor
  · intro h
    obtain ⟨b, hb, h⟩ := bind_eq_ok.mp h
    obtain ⟨hsize, hwf, htext⟩ := parseBundle_eq_ok.mp hb
    dsimp only at h
    split at h
    · cases h
    · rename_i hq
      simp only [Bool.or_eq_true, decide_eq_true_eq, not_or, not_lt] at hq
      obtain ⟨dl, hd, h⟩ := bind_eq_ok.mp h
      obtain ⟨-, d, hdwf, hsup, hdoc, hdl⟩ := parseDelegation_eq_ok.mp hd
      have hver : dl.version = d.version := by rw [hdl, Document.delegation]
      have hexp : dl.expires = d.expires.unix := by rw [hdl, Document.delegation]
      have hkeys : dl.keys = d.keys := by rw [hdl, Document.delegation]
      rw [hver, hexp, hkeys] at h
      split at h
      · cases h
      · rename_i hfresh
        simp only [Bool.and_eq_true, decide_eq_true_eq, not_and, Int.not_le] at hfresh
        split at h
        · cases h
        · rename_i hfloor
          split at h
          · cases h
          · rename_i key hfind
            obtain ⟨hmem, hid⟩ := (find?_key hdwf.ids).mp hfind
            split at h
            · cases h
            · rename_i hpl
              split at h
              · cases h
              · rename_i hsig
                have hquorum := (quorum_iff hr (nodup_of_ascending hwf)).mpr
                  ⟨Nat.pos_of_ne_zero hq.1, hq.2⟩
                exact ⟨b, d, key, ⟨hsize, ⟨hwf, htext⟩, ⟨hdwf, hdoc⟩, hquorum, hfresh,
                  Nat.le_of_not_lt hfloor, ⟨hmem, hid, not_not.mp hpl⟩, verifies_iff.mpr hsig⟩,
                  hsup, (Except.ok.inj h).symm⟩
  · rintro ⟨b, d, k, hv, hsup, hvd⟩
    have hb := parseBundle_eq_ok.mpr ⟨hv.size, hv.bundle⟩
    have hlen : b.document.length ≤ kMaxDelegationBytes :=
      length_document_le (hv.bundle.2 ▸ hv.size)
    have hd := parseDelegation_eq_ok.mpr ⟨hlen, d, hv.document.1, hsup, hv.document.2, rfl⟩
    have hq := (quorum_iff hr (nodup_of_ascending hv.bundle.1)).mp hv.quorum
    have hfind := (find?_key hv.document.1.ids).mpr ⟨hv.key.1, hv.key.2.1⟩
    have hfresh : ¬(policy.checkExpiry && d.expires.unix ≤ policy.now) = true := by
      simpa using hv.fresh
    have hq' : ¬(roots.threshold = 0 || validRootSigs c roots b < roots.threshold) = true := by
      simp only [Bool.or_eq_true, decide_eq_true_eq, not_or, not_lt]
      exact ⟨Nat.ne_of_gt hq.1, hq.2⟩
    refine bind_eq_ok.mpr ⟨b, hb, ?_⟩
    dsimp only
    rw [if_neg hq']
    refine bind_eq_ok.mpr ⟨_, hd, ?_⟩
    refine (if_neg hfresh).trans ((if_neg (Nat.not_lt.mpr hv.floor)).trans ?_)
    simp only [Document.delegation, hfind, hv.key.2.2, ne_eq, not_true_eq_false, ↓reduceIte,
      verifies_iff.mp hv.signature, hvd]

/-- **Trust.** The code accepts exactly the trusted binaries whose delegation it supports,
and the number of root signatures that it compares with the threshold is the number of
distinct roots that have signed the delegation. -/
theorem accepted_iff_trusted (c : Crypto) (binary bundleBytes platform : Bytes) (roots : RootSet)
    (policy : Policy) (hr : (roots.keys.map (·.id)).Nodup) :
    (Accepts c binary bundleBytes platform roots policy ↔
      ∃ b d k, Vouches c binary bundleBytes platform roots policy b d k ∧
        1 ≤ d.version ∧ d.version < 10 ^ 18 ∧ 2000 ≤ d.expires.year) ∧
    ∀ b, parseBundle bundleBytes = .ok b → ∃ signers : List RootKey, signers.Nodup ∧
      (∀ r, r ∈ signers ↔ r ∈ roots.keys ∧ Signed c b r) ∧
      validRootSigs c roots b = signers.length := by
  constructor
  · constructor
    · rintro ⟨v, hv⟩
      obtain ⟨b, d, k, h, hsup, -⟩ := (verify_eq_ok hr).mp hv
      exact ⟨b, d, k, h, hsup⟩
    · rintro ⟨b, d, k, h, hsup⟩
      exact ⟨_, (verify_eq_ok hr).mpr ⟨b, d, k, h, hsup, rfl⟩⟩
  · intro b hb
    obtain ⟨-, hwf, -⟩ := parseBundle_eq_ok.mp hb
    refine ⟨roots.keys.filter (signed c b), List.filter_sublist.nodup (List.Nodup.of_map _ hr), ?_,
      validRootSigs_eq hr (nodup_of_ascending hwf)⟩
    intro r
    rw [List.mem_filter, signed_iff]

/-! ## A delegation with a long version -/

def allValid : Crypto := ⟨fun _ _ _ => .ok (), fun _ => true⟩

def twoRoots : RootSet := ⟨[⟨ascii "r1", [1]⟩, ⟨ascii "r2", [2]⟩], 2⟩

def linuxKey : DelegatedKey := ⟨ascii "linux-build", ascii "linux-amd64", [0, 0, 0]⟩

def sampleDocument (version : Nat) : Document :=
  ⟨version, ⟨2027, 4, 23, 0, 0, 0⟩, [linuxKey]⟩

def sampleBundle (version : Nat) : Bundle :=
  ⟨(sampleDocument version).text, [(ascii "r1", [1]), (ascii "r2", [2])], ascii "linux-build", [3]⟩

private theorem sample_accepts :
    Accepts allValid [] (sampleBundle 7).text (ascii "linux-amd64") twoRoots ⟨false, 0, 0⟩ := by
  have h : (verifyBundleWithRoots allValid [] (sampleBundle 7).text (ascii "linux-amd64") twoRoots
      ⟨false, 0, 0⟩).toBool = true := by decide +kernel
  unfold Accepts
  cases hv : verifyBundleWithRoots allValid [] (sampleBundle 7).text (ascii "linux-amd64") twoRoots
    ⟨false, 0, 0⟩ with
  | ok v => exact ⟨v, rfl⟩
  | error e => simp [hv, Except.toBool] at h

theorem accepted_iff_trusted_sample :
    Accepts allValid [] (sampleBundle 7).text (ascii "linux-amd64") twoRoots ⟨false, 0, 0⟩ ∧
      ∃ b d k, Vouches allValid [] (sampleBundle 7).text (ascii "linux-amd64") twoRoots
        ⟨false, 0, 0⟩ b d k ∧ 1 ≤ d.version ∧ d.version < 10 ^ 18 ∧ 2000 ≤ d.expires.year :=
  ⟨sample_accepts, (accepted_iff_trusted allValid [] (sampleBundle 7).text (ascii "linux-amd64")
    twoRoots ⟨false, 0, 0⟩ (by decide)).1.mp sample_accepts⟩

/-- A version of 19 digits is a decimal number without leading zeros, and refused. -/
theorem long_version_is_refused :
    (twoRoots.keys.map (·.id)).Nodup ∧
    Trusted allValid [] (sampleBundle (10 ^ 18)).text (ascii "linux-amd64") twoRoots
      ⟨false, 0, 0⟩ ∧
    ¬Accepts allValid [] (sampleBundle (10 ^ 18)).text (ascii "linux-amd64") twoRoots
      ⟨false, 0, 0⟩ := by
  refine ⟨by decide, ?_, ?_⟩
  · refine ⟨sampleBundle (10 ^ 18), sampleDocument (10 ^ 18), linuxKey, ?_⟩
    have hb : (sampleBundle (10 ^ 18)).WellFormed :=
      ⟨by decide +kernel, by decide, by decide, by decide, by decide, by decide⟩
    have hd : (sampleDocument (10 ^ 18)).WellFormed allValid.isMlDsa65Spki :=
      ⟨⟨by decide, by decide, by decide, by decide, by decide, by decide⟩, by decide, by decide,
        by decide⟩
    have hq : Quorum allValid twoRoots (sampleBundle (10 ^ 18)) := by
      refine ⟨by decide, twoRoots.keys, by decide, by decide, ?_⟩
      intro r hr
      refine ⟨hr, ?_⟩
      simp only [twoRoots, List.mem_cons, List.not_mem_nil, or_false] at hr
      rcases hr with rfl | rfl
      · exact ⟨[1], by decide, rfl⟩
      · exact ⟨[2], by decide, rfl⟩
    exact ⟨by decide +kernel, ⟨hb, rfl⟩, ⟨hd, rfl⟩, hq, fun h => absurd h (by decide),
      Nat.zero_le _, ⟨by decide, by decide, by decide⟩, rfl⟩
  · rintro ⟨v, hv⟩
    have h : (verifyBundleWithRoots allValid [] (sampleBundle (10 ^ 18)).text
        (ascii "linux-amd64") twoRoots ⟨false, 0, 0⟩).toBool = false := by decide +kernel
    rw [hv] at h
    cases h

end TrafficMonitor.Trust
