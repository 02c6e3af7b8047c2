import TrafficMonitor.Server.ClientPush

/-!
# When a pushed artifact is published

Proved here, for runs of any number of pushes and scans in any order of their steps:

* `holds_of_frame`, `act_holds`: what is known of a push depends on the files it relies on, and
  is kept by its own steps;
* `success_is_published`: where each step is sound and touches no file that another push relies
  on, a push that reports success is published, and one that is not newer is rejected;
* `success_without_artifact`: a version with a sign, and a scan between the two renames, let a
  push report success and leave nothing behind.
-/

namespace TrafficMonitor.ClientPush

open Bytes Artifacts Files Runs Threads
open Rollback hiding step

variable {ι : Type} [DecidableEq ι]

/-! ## What a push has done so far -/

/-- The push has passed the checks. -/
structure Publishable (r : Request) : Prop where
  known : isKnownClientPlatform r.platform = true
  version : IsPlainVersion r.version

/-- The candidate that the scan makes of the pushed files. -/
structure IsOwn (e : ScanEnv) (r : Request) (c : BinaryCandidate) : Prop where
  name : c.name = r.filename
  platform : c.platform = r.platform
  version : c.version = r.version
  sha : c.sha256hex = sha256FileHex e r.binary
  size : c.sigSize = r.signature.length

/-- In the first pass, the pushed files are there and are visited or will be; what was found
and is at least as new is there. -/
structure Visits (e : ScanEnv) (r : Request) (todo : List Bytes) (cs : List BinaryCandidate)
    (d : Directory) : Prop where
  publishable : Publishable r
  installed : Installed r d
  visited : r.filename ∈ todo ∨ ∃ c ∈ cs, c.name = r.filename
  own : ∀ c ∈ cs, c.name = r.filename → IsOwn e r c
  present : ∀ c ∈ cs, AtLeast r c → Present d c.name

/-- After the second pass, the keeper of the platform is the pushed artifact or a newer one, and
is there. -/
def Keeps (e : ScanEnv) (r : Request) (keepers : List BinaryCandidate) (d : Directory) : Prop :=
  ∃ k, keepers.find? (·.platform = r.platform) = some k ∧
    ((IsOwn e r k ∧ Installed r d) ∨ (numbers r.version < numbers k.version ∧ Present d k.name))

/-- What is known of a thread. -/
def Holds (e : ScanEnv) (l : Thread) (u : Shared) : Prop :=
  match l with
  | .validated r => isKnownClientPlatform r.platform = true
  | .checked r => Publishable r
  | .wroteBinary r => Publishable r ∧ u.dir r.binTmp = some (.file r.binary)
  | .madeExecutable r => Publishable r ∧ u.dir r.binTmp = some (.file r.binary)
  | .wroteSig r => Publishable r ∧ u.dir r.binTmp = some (.file r.binary) ∧
    u.dir r.sigTmp = some (.file r.signature)
  | .renamedSig r => Publishable r ∧ u.dir r.binTmp = some (.file r.binary) ∧
    u.dir r.sigTarget = some (.file r.signature)
  | .renamedBinary r => Publishable r ∧ Installed r u.dir
  | .visiting caller todo cs => (cs.map (·.name) ++ todo).Nodup ∧
    ∀ r, caller = some r → Visits e r todo cs u.dir
  | .selected caller keepers => ∀ r, caller = some r → Keeps e r keepers u.dir
  | .deleting caller keepers _ => ∀ r, caller = some r → Keeps e r keepers u.dir
  | .undefined => False
  | .idle => True
  | .answered _ _ => True

theorem mem_keepNames {K : List BinaryCandidate} {k : BinaryCandidate} (hk : k ∈ K) :
    k.name ∈ keepNames K ∧ k.name ++ SIG ∈ keepNames K := by
  simp only [keepNames, List.mem_flatMap, List.mem_cons, List.not_mem_nil, or_false]
  exact ⟨⟨k, hk, .inl rfl⟩, k, hk, .inr rfl⟩

theorem Pair.frame {d d' : Directory} {name binary sig : Bytes} (h : Pair d name binary sig)
    (h₁ : d' name = d name) (h₂ : d' (name ++ SIG) = d (name ++ SIG)) : Pair d' name binary sig :=
  ⟨h₁.trans h.1, h₂.trans h.2⟩

theorem Present.frame {d d' : Directory} {name : Bytes} (h : Present d name)
    (h₁ : d' name = d name) (h₂ : d' (name ++ SIG) = d (name ++ SIG)) : Present d' name := by
  obtain ⟨binary, sig, hp⟩ := h
  exact ⟨binary, sig, hp.frame h₁ h₂⟩

/-- The keeper survives as long as its files do. -/
theorem Keeps.frame {e : ScanEnv} {r : Request} {K : List BinaryCandidate} {d d' : Directory}
    (h : Keeps e r K d) (hd : ∀ n ∈ keepNames (K.filter (·.platform = r.platform)), d' n = d n) :
    Keeps e r K d' := by
  obtain ⟨k, hfind, hk⟩ := h
  have hmem : k ∈ K.filter (·.platform = r.platform) :=
    List.mem_filter.mpr ⟨List.mem_of_find?_eq_some hfind, by simpa using List.find?_some hfind⟩
  obtain ⟨h₁, h₂⟩ := mem_keepNames hmem
  refine ⟨k, hfind, ?_⟩
  obtain ⟨hown, hinst⟩ | ⟨hlt, hpres⟩ := hk
  · rw [hown.name] at h₁ h₂
    exact .inl ⟨hown, hinst.frame (hd _ h₁) (hd _ h₂)⟩
  · exact .inr ⟨hlt, hpres.frame (hd _ h₁) (hd _ h₂)⟩

/-- **Stability.** What is known of a thread depends on the files it relies on alone. -/
theorem holds_of_frame {e : ScanEnv} {l : Thread} {u u' : Shared} (h : Holds e l u)
    (hd : ∀ n ∈ relied l, u'.dir n = u.dir n) : Holds e l u' := by
  cases l with
  | idle => trivial
  | validated r => exact h
  | checked r => exact h
  | wroteBinary r => exact ⟨h.1, (hd _ (by simp [relied])).trans h.2⟩
  | madeExecutable r => exact ⟨h.1, (hd _ (by simp [relied])).trans h.2⟩
  | wroteSig r =>
    exact ⟨h.1, (hd _ (by simp [relied])).trans h.2.1, (hd _ (by simp [relied])).trans h.2.2⟩
  | renamedSig r =>
    exact ⟨h.1, (hd _ (by simp [relied])).trans h.2.1, (hd _ (by simp [relied])).trans h.2.2⟩
  | renamedBinary r =>
    exact ⟨h.1, h.2.frame (hd _ (by simp [relied])) (hd _ (by simp [relied, Request.sigTarget]))⟩
  | visiting caller todo cs =>
    refine ⟨h.1, fun r hr => ?_⟩
    subst hr
    have hv := h.2 r rfl
    refine ⟨hv.publishable, ?_, hv.visited, hv.own, fun c hc hat => ?_⟩
    · exact hv.installed.frame (hd _ (by simp [relied]))
        (hd _ (by simp [relied, Request.sigTarget]))
    · have hmem : c ∈ cs.filter (AtLeast r ·) := List.mem_filter.mpr ⟨hc, by simpa using hat⟩
      obtain ⟨h₁, h₂⟩ := mem_keepNames hmem
      exact (hv.present c hc hat).frame (hd _ (by simp [relied, h₁])) (hd _ (by simp [relied, h₂]))
  | selected caller keepers =>
    intro r hr
    subst hr
    exact (h r rfl).frame hd
  | deleting caller keepers todo =>
    intro r hr
    subst hr
    exact (h r rfl).frame hd
  | answered status error => trivial
  | undefined => exact h.elim

/-! ## The steps of a push -/

theorem receive_holds (e : ScanEnv) (r : Request) (io : Checks) (policy : Trust.Policy)
    (u : Shared) : Holds e (receive e r io policy) u := by
  unfold receive
  split
  · trivial
  split
  · trivial
  split
  · trivial
  split
  · trivial
  split
  · trivial
  rename_i hknown
  split
  · trivial
  split
  · trivial
  split
  · trivial
  · simpa [Holds] using hknown

theorem checkVersion_holds {e : ScanEnv} {r : Request} {manifest : List UpdateManifestEntry}
    {u : Shared} (h : Publishable r) : Holds e (checkVersion manifest r) u := by
  unfold checkVersion
  split
  · exact h
  split
  · exact h
  split
  · exact h
  · trivial

/-- A temporary file is written in full, or the push fails. -/
theorem writeTmp_cases (io : WriteIo) (r : Request) (path data ce fe : Bytes) (next : Thread)
    (d : Directory) (h : io.taken = true → data.length ≤ io.flushed) :
    (∃ status error, (writeTmp io r path data ce fe next d).1 = .answered status error) ∨
      writeTmp io r path data ce fe next d = (next, write path (.file data) d) := by
  unfold writeTmp
  cases io.opened with
  | false => exact .inl ⟨500, ce, rfl⟩
  | true =>
    cases ht : io.taken with
    | false => exact .inl ⟨500, fe, rfl⟩
    | true => exact .inr (by simp [List.take_of_length_le (h ht)])

theorem candidate_name {e : ScanEnv} {policy : Trust.Policy} {d : Directory} {n : Bytes}
    {c : BinaryCandidate} (h : c ∈ (candidateOf e policy d n).toList) :
    c.name = n ∧ IsArtifact e policy d c :=
  candidateOf_eq_some.mp (Option.mem_toList.mp h)

/-- The pushed files are read as the pushed artifact. -/
theorem own_of_artifact {e : ScanEnv} {policy : Trust.Policy} {d : Directory} {r : Request}
    (hr : Publishable r) (hd : Installed r d) {c : BinaryCandidate} (hc : IsArtifact e policy d c)
    (hn : c.name = r.filename) : IsOwn e r c := by
  obtain ⟨w, hname⟩ := hc.name
  obtain ⟨w', hparse⟩ := parse_filename hr.known (isFileVersion_of_plain hr.version)
  rw [hn, hparse] at hname
  obtain ⟨hp, hv, -⟩ := ClientBinaryInfo.mk.inj (Option.some.inj hname)
  obtain ⟨binary, sig, hb, hs, -, hsha, hsize⟩ := hc.files
  rw [hn] at hb hs
  obtain rfl : r.binary = binary := by simpa using hd.1.symm.trans hb
  obtain rfl : r.signature = sig := by simpa using hd.2.symm.trans hs
  exact ⟨hn, hp.symm, hv.symm, hsha, hsize⟩

/-- While the policy accepts it, the scan finds the pushed artifact. -/
theorem candidate_installed {e : ScanEnv} {policy : Trust.Policy} {d : Directory} {r : Request}
    (hr : Publishable r) (hd : Installed r d)
    (ha : accepts e policy r.platform r.binary r.signature = true) :
    ∃ c, candidateOf e policy d r.filename = some c ∧ c.name = r.filename := by
  have hv := isFileVersion_of_plain hr.version
  refine ⟨⟨r.filename, r.platform, r.version, sha256FileHex e r.binary, r.signature.length, hv⟩,
    candidateOf_eq_some.mpr ⟨rfl, ?_⟩, rfl⟩
  exact ⟨parse_filename hr.known hv, isSigName_filename hr.known hv, hr.known, r.binary,
    r.signature, hd.1, hd.2, ha, rfl, rfl⟩

theorem present_of_artifact {e : ScanEnv} {policy : Trust.Policy} {d : Directory}
    {c : BinaryCandidate} (hc : IsArtifact e policy d c) : Present d c.name := by
  obtain ⟨binary, sig, hb, hs, -⟩ := hc.files
  exact ⟨binary, sig, hb, hs⟩

/-- One round of the first pass. -/
theorem visit_visits {e : ScanEnv} {policy : Trust.Policy} {d : Directory} {r : Request}
    {n : Bytes} {todo : List Bytes} {cs : List BinaryCandidate} (h : Visits e r (n :: todo) cs d)
    (ha : n = r.filename → accepts e policy r.platform r.binary r.signature = true) :
    Visits e r todo (cs ++ (candidateOf e policy d n).toList) d where
  publishable := h.publishable
  installed := h.installed
  visited := by
    obtain hmem | ⟨c, hc, hn⟩ := h.visited
    · obtain rfl | hmem := List.mem_cons.mp hmem
      · obtain ⟨c, hc, hn⟩ := candidate_installed h.publishable h.installed (ha rfl)
        exact .inr ⟨c, by simp [hc], hn⟩
      · exact .inl hmem
    · exact .inr ⟨c, by simp [hc], hn⟩
  own c hc hn := by
    obtain hc | hc := List.mem_append.mp hc
    · exact h.own c hc hn
    · exact own_of_artifact h.publishable h.installed (candidate_name hc).2 hn
  present c hc hat := by
    obtain hc | hc := List.mem_append.mp hc
    · exact h.present c hc hat
    · exact present_of_artifact (candidate_name hc).2

theorem nodup_visit {e : ScanEnv} {policy : Trust.Policy} {d : Directory} {n : Bytes}
    {todo : List Bytes} {cs : List BinaryCandidate}
    (h : (cs.map (·.name) ++ n :: todo).Nodup) :
    ((cs ++ (candidateOf e policy d n).toList).map (·.name) ++ todo).Nodup := by
  cases hc : candidateOf e policy d n with
  | none =>
    simp only [Option.toList_none, List.append_nil]
    exact h.sublist (List.Sublist.append_left (List.sublist_cons_self n todo) _)
  | some c =>
    have hn : c.name = n := (candidateOf_eq_some.mp hc).1
    simpa [hn] using h

theorem exists_keepers {cs : List BinaryCandidate} (hn : cs.Nodup) (h : Comparable cs) :
    ∃ K, keepersOf cs = some K := by
  refine Best.exists_select hn fun a ha b hb hab hp => ?_
  exact semverCmp_isSome (h a ha b hb hab hp) (h b hb a ha hab.symm hp.symm)

theorem find?_of_nodup {p : Bytes} {K : List BinaryCandidate} {k : BinaryCandidate}
    (hn : (K.map (·.platform)).Nodup) (hk : k ∈ K) (hp : k.platform = p) :
    K.find? (·.platform = p) = some k := by
  cases hf : K.find? (·.platform = p) with
  | none =>
    rw [List.find?_eq_none] at hf
    exact absurd (hf k hk) (by simp [hp])
  | some j =>
    have hj : j.platform = p := by simpa using List.find?_some hf
    rw [List.inj_on_of_nodup_map hn (List.mem_of_find?_eq_some hf) hk (hj.trans hp.symm)]

/-- The second pass keeps the pushed artifact or a newer one. -/
theorem keeps_of_select {e : ScanEnv} {r : Request} {cs K : List BinaryCandidate} {d : Directory}
    (h : Visits e r [] cs d) (hties : NoTie r cs) (hK : keepersOf cs = some K) :
    Keeps e r K d := by
  obtain hmem | ⟨c, hc, hname⟩ := h.visited
  · cases hmem
  have hown := h.own c hc hname
  obtain ⟨k, hk, hp⟩ := Best.covered_of_select hK c hc
  have hkp : k.platform = r.platform := hp.trans hown.platform
  have hkc : k ∈ cs := Best.mem_of_select hK k hk
  have hle : numbers r.version ≤ numbers k.version := by
    have := Best.select_spec (fun _ _ _ h => semverCmp_pos h) hK k hk c hc hp.symm
    rwa [hown.version] at this
  refine ⟨k, find?_of_nodup (Best.nodup_of_select hK) hk hkp, ?_⟩
  obtain heq | hlt := hle.eq_or_lt
  · exact .inl ⟨h.own k hkc (hties k hkc hkp heq.symm), h.installed⟩
  · exact .inr ⟨hlt, h.present k hkc ⟨hkp, hle⟩⟩

theorem nodup_of_names {cs : List BinaryCandidate}
    (h : (cs.map (fun c : BinaryCandidate => c.name) ++ []).Nodup) :
    cs.Nodup := by
  rw [List.append_nil] at h
  exact h.of_map (fun c : BinaryCandidate => c.name)

/-- The keeper's files are not deleted. -/
theorem Keeps.delete {e : ScanEnv} {r : Request} {K : List BinaryCandidate} {d : Directory}
    (h : Keeps e r K d) (n : Bytes) : Keeps e r K (deleteOther K d n) := by
  refine h.frame fun m hm => deleteOther_ne (.inl ?_)
  obtain ⟨k, hk, hm⟩ := List.mem_flatMap.mp hm
  exact List.mem_flatMap.mpr ⟨k, List.mem_of_mem_filter hk, hm⟩

/-- **One step** of a thread, when it is sound, keeps what is known of the thread. -/
theorem act_holds {e : ScanEnv} {l l' : Thread} {u u' : Shared} {a : Action} (h : Holds e l u)
    (hlist : ∀ listing, a = .list listing → Covers u.dir listing) (hs : Sound e l u a)
    (hact : act e l u a = some (l', u')) : Holds e l' u' := by
  unfold act at hact
  split at hact <;> simp only [Option.some.injEq, Prod.mk.injEq, reduceCtorEq] at hact
  case h_1 r io policy =>
    obtain ⟨rfl, rfl⟩ := hact
    exact receive_holds e r io policy u
  case h_2 r =>
    obtain ⟨rfl, rfl⟩ := hact
    exact checkVersion_holds ⟨h, hs.1⟩
  case h_3 r io =>
    obtain ⟨rfl, rfl⟩ := hact
    obtain ⟨status, error, he⟩ | he := writeTmp_cases io r r.binTmp r.binary
      (ascii "cannot create temp file") (ascii "write failed") (.wroteBinary r) u.dir hs
    · rw [he]
      trivial
    · rw [he]
      exact ⟨h, write_same⟩
  case h_4 r ok =>
    obtain ⟨rfl, rfl⟩ := hact
    cases ok with
    | true => exact h
    | false => trivial
  case h_5 r io =>
    obtain ⟨rfl, rfl⟩ := hact
    obtain ⟨status, error, he⟩ | he := writeTmp_cases io r r.sigTmp r.signature
      (ascii "cannot create sig temp file") (ascii "sig write failed") (.wroteSig r) u.dir hs
    · rw [he]
      trivial
    · rw [he]
      exact ⟨h.1, (write_ne (by simp)).trans h.2, write_same⟩
  case h_6 r ok =>
    obtain ⟨rfl, rfl⟩ := hact
    rw [tryRename_of_some h.2.2]
    cases ok with
    | true =>
      refine ⟨h.1, ?_, write_same⟩
      exact (write_ne (by simp)).trans ((remove_ne (by simp)).trans h.2.1)
    | false => trivial
  case h_7 r ok =>
    obtain ⟨rfl, rfl⟩ := hact
    rw [tryRename_of_some h.2.1]
    cases ok with
    | true =>
      refine ⟨h.1, write_same, ?_⟩
      exact (write_ne (names_ne r).2.2.2.2.2.2.2.1).trans ((remove_ne (by simp)).trans h.2.2)
    | false => trivial
  case h_8 listing =>
    obtain ⟨rfl, rfl⟩ := hact
    exact ⟨by simpa using (hlist listing rfl).1, fun r hr => by cases hr⟩
  case h_9 r listing =>
    obtain ⟨rfl, rfl⟩ := hact
    obtain ⟨hnodup, hcovers⟩ := hlist listing rfl
    refine ⟨by simpa using hnodup, fun r' hr' => ?_⟩
    cases hr'
    have hmem : r.filename ∈ listing := hcovers _ (by rw [h.2.1]; simp)
    exact ⟨h.1, h.2, .inl hmem, by simp, by simp⟩
  case h_10 caller n todo cs policy =>
    obtain ⟨rfl, rfl⟩ := hact
    refine ⟨nodup_visit h.1, fun r hr => ?_⟩
    subst hr
    exact visit_visits (h.2 r rfl) hs
  case h_11 caller cs =>
    have hs : Comparable cs ∧ ∀ r, caller = some r → NoTie r cs := by cases caller <;> exact hs
    obtain ⟨K, hK⟩ := exists_keepers (nodup_of_names h.1) hs.1
    rw [hK] at hact
    obtain ⟨rfl, rfl⟩ := Prod.mk.inj (Option.some.inj hact)
    exact fun r hr => keeps_of_select (h.2 r hr) (hs.2 r hr) hK
  case h_12 =>
    obtain ⟨rfl, rfl⟩ := hact
    exact h
  case h_13 caller K n todo =>
    obtain ⟨rfl, rfl⟩ := hact
    exact fun r hr => (h r hr).delete n
  case h_14 =>
    obtain ⟨rfl, rfl⟩ := hact
    trivial

/-! ## Answers -/

/-- The push that a thread works on. -/
def Thread.push : Thread → Option Request
  | .validated r => some r
  | .checked r => some r
  | .wroteBinary r => some r
  | .madeExecutable r => some r
  | .wroteSig r => some r
  | .renamedSig r => some r
  | .renamedBinary r => some r
  | .visiting caller _ _ => caller
  | .selected caller _ => caller
  | .deleting caller _ _ => caller
  | _ => none

theorem published_manifestOf (K : List BinaryCandidate) (p : Bytes) :
    published (manifestOf K) p = (K.find? (·.platform = p)).map
      fun k => ⟨k.platform, k.version, k.name, k.sha256hex, k.sigSize⟩ := by
  rw [published, manifestOf, List.find?_map]
  rfl

theorem isPublished_of_keeps {e : ScanEnv} {r : Request} {K : List BinaryCandidate} {u : Shared}
    (h : Keeps e r K u.dir) : IsPublished r { u with g_manifest := manifestOf K } := by
  obtain ⟨k, hfind, hk⟩ := h
  refine ⟨_, by rw [published_manifestOf, hfind]; rfl, ?_⟩
  obtain ⟨hown, hinst⟩ | ⟨hlt, hpres⟩ := hk
  · exact .inl ⟨hown.version, hown.name, hinst⟩
  · exact .inr ⟨hlt, hpres⟩

/-- Success is reported by the scan alone. -/
theorem act_success {e : ScanEnv} {l : Thread} {u u' : Shared} {a : Action} {error : Bytes}
    {r : Request} (hpush : l.push = some r)
    (hact : act e l u a = some (.answered 200 error, u')) :
    ∃ K, l = .deleting (some r) K [] ∧ u' = { u with g_manifest := manifestOf K } := by
  have write (io : WriteIo) (r : Request) (path data ce fe : Bytes) (next : Thread)
      (d : Directory) (hn : ∀ error, next ≠ .answered 200 error) :
      (writeTmp io r path data ce fe next d).1 ≠ .answered 200 error := by
    unfold writeTmp
    split
    · simp
    · dsimp only
      split
      · simp
      · exact hn error
  unfold act at hact
  split at hact <;> simp only [Option.some.injEq, Prod.mk.injEq, reduceCtorEq, false_and] at hact
  case h_1 => cases hpush
  case h_2 =>
    obtain ⟨hact, -⟩ := hact
    unfold checkVersion at hact
    repeat' split at hact
    all_goals simp at hact
  case h_3 => exact absurd hact.1 (write _ _ _ _ _ _ _ _ (by simp))
  case h_4 ok =>
    cases ok <;> simp at hact
  case h_5 => exact absurd hact.1 (write _ _ _ _ _ _ _ _ (by simp))
  case h_6 =>
    obtain ⟨hact, -⟩ := hact
    split at hact <;> simp at hact
  case h_7 =>
    obtain ⟨hact, -⟩ := hact
    split at hact <;> simp at hact
  case h_11 =>
    split at hact <;> simp at hact
  case h_14 caller K =>
    obtain rfl : caller = some r := hpush
    exact ⟨K, rfl, hact.2.symm⟩

theorem gt_iff (v w : Semver) : v.gt w = true ↔ fourOf w < fourOf v := by
  obtain ⟨a, b, c, d⟩ := v
  obtain ⟨a', b', c', d'⟩ := w
  simp only [Semver.gt, fourOf, List.cons_lt_cons_iff, List.not_lt_nil, and_false, or_false]
  split_ifs <;> simp <;> omega

theorem numbers_of_plain {s : Bytes} (h : IsPlainVersion s) :
    ∃ v, parseSemver s = some v ∧ numbers s = fourOf v := by
  obtain ⟨v, hv⟩ := h
  exact ⟨v, parseSemver_of_isVersion hv, by rw [numbers, hv.2]⟩

/-- What is not newer than the published version is rejected. -/
theorem checkVersion_rejects {manifest : List UpdateManifestEntry} {r : Request}
    {m : UpdateManifestEntry} (hm : published manifest r.platform = some m)
    (hr : IsPlainVersion r.version) (hv : IsPlainVersion m.version)
    (hle : ¬numbers m.version < numbers r.version) :
    ∃ error, checkVersion manifest r = .answered 409 error := by
  obtain ⟨v, hpv, hnv⟩ := numbers_of_plain hr
  obtain ⟨w, hpw, hnw⟩ := numbers_of_plain hv
  rw [hnv, hnw, ← gt_iff] at hle
  simp only [checkVersion, hm, hpw, semverOf, hpv, Option.getD_some]
  rw [if_neg hle]
  exact ⟨_, rfl⟩

/-- **Pushes.** In a run whose steps are all orderly, a push that reports success is published;
one that is not newer than the published version is rejected, and nothing is changed; the
comparison of versions is always defined, and an answer is final. -/
theorem success_is_published (e : ScanEnv) {s₀ s : System ι Thread Shared}
    {as : List (ι × Action)} (hidle : ∀ t, s₀.threads t = .idle)
    (hm : Meets (step (act e)) (Orderly e) s₀ as) (hr : run (step (act e)) s₀ as = some s) :
    (∀ t a r s' error, (s.threads t).push = some r → step (act e) s (t, a) = some s' →
      s'.threads t = .answered 200 error → IsPublished r s'.shared) ∧
    (∀ t r m s', s.threads t = .validated r → IsPlainVersion r.version →
      published s.shared.g_manifest r.platform = some m → IsPlainVersion m.version →
      ¬numbers m.version < numbers r.version → step (act e) s (t, .checkVersion) = some s' →
      (∃ error, s'.threads t = .answered 409 error) ∧ s'.shared = s.shared) ∧
    (∀ t, s.threads t ≠ .undefined) ∧
    ∀ t a status error, s.threads t = .answered status error → step (act e) s (t, a) = none := by
  have hframe (l : Thread) (u u' : Shared) (h : Holds e l u)
      (hd : ∀ n ∈ relied l, u'.dir n = u.dir n) : Holds e l u' := holds_of_frame h hd
  have htouch (l : Thread) (u : Shared) (a : Action) (l' : Thread) (u' : Shared)
      (h : act e l u a = some (l', u')) (n : Bytes) (hn : n ∉ touched l a) :
      u'.dir n = u.dir n := dir_of_untouched h n hn
  have hown (s : System ι Thread Shared) (t : ι) (a : Action) (l : Thread) (u : Shared)
      (h : Holds e (s.threads t) s.shared) (hc : Orderly e s (t, a))
      (hact : act e (s.threads t) s.shared a = some (l, u)) : Holds e l u :=
    act_holds h hc.listing hc.sound hact
  have hinit : ∀ t, Holds e (s₀.threads t) s₀.shared := fun t => by rw [hidle t]; trivial
  have hholds : ∀ t, Holds e (s.threads t) s.shared :=
    holds_of_undisturbed hframe htouch (fun _ _ h => h.undisturbed) hown hinit hm hr
  refine ⟨?_, ?_, ?_, ?_⟩
  · intro t a r s' error hpush hstep hans
    obtain ⟨l, u, hact, rfl⟩ := step_eq_some.mp hstep
    obtain rfl : l = .answered 200 error := by simpa using hans
    obtain ⟨K, hl, rfl⟩ := act_success hpush hact
    have h := hholds t
    rw [hl] at h
    exact isPublished_of_keeps (h r rfl)
  · intro t r m s' hl hplain hpub hmv hle hstep
    obtain ⟨l, u, hact, rfl⟩ := step_eq_some.mp hstep
    rw [hl] at hact
    obtain ⟨rfl, rfl⟩ := Prod.mk.inj (Option.some.inj hact)
    obtain ⟨error, he⟩ := checkVersion_rejects hpub hplain hmv hle
    exact ⟨⟨error, by simpa using he⟩, rfl⟩
  · intro t hl
    have h := hholds t
    rw [hl] at h
    exact h
  · intro t a status error hl
    simp only [step, hl]
    cases a <;> rfl

/-! ## One push -/

def samplePush (version : String) : Request :=
  ⟨ascii "linux-amd64", ascii version, [1], [1], [1], (Trust.sampleBundle 7).text⟩

/-- A server with one thread. -/
def single (l : Thread) (u : Shared) : System Unit Thread Shared := ⟨fun _ => l, u⟩

def emptyServer : System Unit Thread Shared := single .idle ⟨fun _ => none, []⟩

def names (r : Request) : List Bytes := [r.filename, r.sigTarget, r.binTmp, r.sigTmp]

/-- The steps of a push up to the rename of the signature, when no call fails. -/
def stageSteps (r : Request) : List Action :=
  [.receive r ⟨true, true, true, true⟩ samplePolicy, .checkVersion,
    .writeBinary ⟨true, true, r.binary.length⟩, .chmod true,
    .writeSig ⟨true, true, r.signature.length⟩, .renameSig true]

/-- The steps of a scan up to the first deletion. -/
def scanSteps (r : Request) : List Action :=
  [.list (names r), .visit samplePolicy, .visit samplePolicy, .visit samplePolicy,
    .visit samplePolicy, .select, .list (names r)]

def inThread (t : ι) (as : List Action) : List (ι × Action) := as.map (t, ·)

/-- Everything but the publication. -/
def undisturbedPush (r : Request) : List (Unit × Action) :=
  inThread () (stageSteps r ++ .renameBinary true :: scanSteps r ++
    [.delete, .delete, .delete, .delete])

theorem meets_single {e : ScanEnv} {l l' : Thread} {u u' : Shared} {a : Action}
    {as : List (Unit × Action)} (hact : act e l u a = some (l', u'))
    (hlist : ∀ listing, a = .list listing → Covers u.dir listing) (hs : Sound e l u a)
    (h : Meets (step (act e)) (Orderly e) (single l' u') as) :
    Meets (step (act e)) (Orderly e) (single l u) (((), a) :: as) := by
  have hstep : step (act e) (single l u) ((), a) = some (single l' u') :=
    step_eq_some.mpr ⟨l', u', hact, by simp [single]; rfl⟩
  exact (meets_cons_of_step hstep).mpr ⟨⟨hlist, hs, fun t ht => absurd rfl ht⟩, h⟩

/-- The directory when both files are renamed. -/
def installedDir (r : Request) : Directory :=
  write r.filename (.file r.binary) <| remove r.binTmp <|
    write r.sigTarget (.file r.signature) <| remove r.sigTmp <|
      write r.sigTmp (.file r.signature) <| write r.binTmp (.file r.binary) fun _ => none

theorem covers_names (r : Request) : Covers (installedDir r) (names r) := by
  refine ⟨by simp [names], fun n hn => ?_⟩
  by_contra hmem
  simp only [names, List.mem_cons, List.not_mem_nil, or_false, not_or] at hmem
  apply hn
  rw [installedDir, write_ne hmem.1, remove_ne hmem.2.2.1, write_ne hmem.2.1,
    remove_ne hmem.2.2.2, write_ne hmem.2.2.2, write_ne hmem.2.2.1]

/-- What the first pass finds there. -/
def foundAlone (r : Request) : List BinaryCandidate :=
  (names r).flatMap fun n => (candidateOf sampleEnv samplePolicy (installedDir r) n).toList

/-- The steps up to the scan. -/
private theorem meets_writes {r : Request} {as : List (Unit × Action)}
    (hreceive : receive sampleEnv r ⟨true, true, true, true⟩ samplePolicy = .validated r)
    (hv : IsPlainVersion r.version)
    (h : Meets (step (act sampleEnv)) (Orderly sampleEnv)
      (single (.renamedBinary r) ⟨installedDir r, []⟩) as) :
    Meets (step (act sampleEnv)) (Orderly sampleEnv) emptyServer
      (((), .receive r ⟨true, true, true, true⟩ samplePolicy) :: ((), .checkVersion) ::
        ((), .writeBinary ⟨true, true, r.binary.length⟩) :: ((), .chmod true) ::
        ((), .writeSig ⟨true, true, r.signature.length⟩) :: ((), .renameSig true) ::
        ((), .renameBinary true) :: as) := by
  have hrec : act sampleEnv .idle ⟨fun _ => none, []⟩
      (.receive r ⟨true, true, true, true⟩ samplePolicy) =
        some (.validated r, ⟨fun _ => none, []⟩) := by simp [act, hreceive]
  have hbin (d : Directory) : act sampleEnv (.checked r) ⟨d, []⟩
      (.writeBinary ⟨true, true, r.binary.length⟩) =
        some (.wroteBinary r, ⟨write r.binTmp (.file r.binary) d, []⟩) := by simp [act, writeTmp]
  have hsig (d : Directory) : act sampleEnv (.madeExecutable r) ⟨d, []⟩
      (.writeSig ⟨true, true, r.signature.length⟩) =
        some (.wroteSig r, ⟨write r.sigTmp (.file r.signature) d, []⟩) := by simp [act, writeTmp]
  have hrename (d : Directory) (hd : d r.sigTmp = some (.file r.signature)) :
      act sampleEnv (.wroteSig r) ⟨d, []⟩ (.renameSig true) = some (.renamedSig r,
        ⟨write r.sigTarget (.file r.signature) (remove r.sigTmp d), []⟩) := by
    simp [act, tryRename_of_some hd]
  have hrename' (d : Directory) (hd : d r.binTmp = some (.file r.binary)) :
      act sampleEnv (.renamedSig r) ⟨d, []⟩ (.renameBinary true) = some (.renamedBinary r,
        ⟨write r.filename (.file r.binary) (remove r.binTmp d), []⟩) := by
    simp [act, tryRename_of_some hd]
  refine meets_single hrec (by simp) trivial ?_
  refine meets_single rfl (by simp) ⟨hv, by simp [published]⟩ ?_
  refine meets_single (hbin _) (by simp) (fun _ => le_rfl) ?_
  refine meets_single rfl (by simp) trivial ?_
  refine meets_single (hsig _) (by simp) (fun _ => le_rfl) ?_
  refine meets_single (hrename _ write_same) (by simp) trivial ?_
  exact meets_single (hrename' _ (by simp)) (by simp) trivial h

/-- The scan after it, when the pushed artifact is all that is found. -/
private theorem meets_scan {r : Request} {c : BinaryCandidate} (hfound : foundAlone r = [c])
    (hname : c.name = r.filename)
    (hacc : accepts sampleEnv samplePolicy r.platform r.binary r.signature = true) :
    Meets (step (act sampleEnv)) (Orderly sampleEnv)
      (single (.renamedBinary r) ⟨installedDir r, []⟩)
      (((), .list (names r)) :: ((), .visit samplePolicy) :: ((), .visit samplePolicy) ::
        ((), .visit samplePolicy) :: ((), .visit samplePolicy) :: ((), .select) ::
        ((), .list (names r)) :: ((), .delete) :: ((), .delete) :: ((), .delete) ::
        ((), .delete) :: []) := by
  have hlist : ∀ listing, Action.list (names r) = .list listing →
      Covers (installedDir r) listing := by
    rintro listing h
    cases h
    exact covers_names r
  have hkeepers : keepersOf [c] = some [c] := rfl
  have hselect : act sampleEnv (.visiting (some r) [] [c]) ⟨installedDir r, []⟩ .select =
      some (.selected (some r) [c], ⟨installedDir r, []⟩) := by simp [act, hkeepers]
  refine meets_single rfl hlist trivial ?_
  refine meets_single rfl (by simp) (fun _ => hacc) ?_
  refine meets_single rfl (by simp) (fun _ => hacc) ?_
  refine meets_single rfl (by simp) (fun _ => hacc) ?_
  refine meets_single rfl (by simp) (fun _ => hacc) ?_
  have hcs : [] ++ (candidateOf sampleEnv samplePolicy (installedDir r) r.filename).toList ++
      (candidateOf sampleEnv samplePolicy (installedDir r) r.sigTarget).toList ++
      (candidateOf sampleEnv samplePolicy (installedDir r) r.binTmp).toList ++
      (candidateOf sampleEnv samplePolicy (installedDir r) r.sigTmp).toList = [c] := by
    simpa [foundAlone, names] using hfound
  dsimp only
  rw [hcs]
  have hsound : Sound sampleEnv (.visiting (some r) [] [c]) ⟨installedDir r, []⟩ .select := by
    refine ⟨fun a ha b hb hab => ?_, fun _ hr a ha _ _ => ?_⟩
    · simp_all
    · simp_all
  refine meets_single hselect (by simp) hsound ?_
  refine meets_single rfl hlist trivial ?_
  refine meets_single rfl (by simp) trivial ?_
  refine meets_single rfl (by simp) trivial ?_
  refine meets_single rfl (by simp) trivial ?_
  exact meets_single rfl (by simp) trivial (meets_nil _)

theorem sampleVersion_ok : isFileVersion (samplePush "1.2.3").version = true := by decide

def sampleCandidate : BinaryCandidate :=
  ⟨(samplePush "1.2.3").filename, (samplePush "1.2.3").platform, (samplePush "1.2.3").version,
    sha256FileHex sampleEnv (samplePush "1.2.3").binary, (samplePush "1.2.3").signature.length,
    sampleVersion_ok⟩

/-- One evaluation of the example: its checks, what the scan finds, and where the push stands
before the publication. -/
private theorem sample_evaluated :
    receive sampleEnv (samplePush "1.2.3") ⟨true, true, true, true⟩ samplePolicy =
        .validated (samplePush "1.2.3") ∧
      accepts sampleEnv samplePolicy (samplePush "1.2.3").platform (samplePush "1.2.3").binary
        (samplePush "1.2.3").signature = true ∧
      foundAlone (samplePush "1.2.3") = [sampleCandidate] ∧
      (run (step (act sampleEnv)) emptyServer (undisturbedPush (samplePush "1.2.3"))).map
        (fun s => s.threads ()) = some (.deleting (some (samplePush "1.2.3"))
          [sampleCandidate] []) := by
  decide +kernel

theorem success_is_published_alone :
    ∃ s, run (step (act sampleEnv)) emptyServer (undisturbedPush (samplePush "1.2.3")) = some s ∧
      ∃ s', step (act sampleEnv) s ((), .publish) = some s' ∧
        IsPublished (samplePush "1.2.3") s'.shared := by
  have hplain : IsPlainVersion (samplePush "1.2.3").version :=
    ⟨⟨1, 2, 3, 0⟩, by decide, by decide⟩
  obtain ⟨hreceive, hacc, hfound, hrun⟩ := sample_evaluated
  have hmeets := meets_writes hreceive hplain (meets_scan hfound rfl hacc)
  obtain ⟨s, hs, hthread⟩ := Option.map_eq_some_iff.mp hrun
  have hstep : step (act sampleEnv) s ((), .publish) = some (single (.answered 200 [])
      { s.shared with g_manifest := manifestOf [sampleCandidate] }) :=
    step_eq_some.mpr ⟨_, _, by rw [hthread]; rfl, by simp [single]; rfl⟩
  refine ⟨s, hs, _, hstep, ?_⟩
  exact (success_is_published sampleEnv (fun _ => rfl) hmeets hs).1 () .publish _ _ []
    (by rw [hthread]; rfl) hstep rfl

/-! ## Two pushes that fail silently -/

/-- A scan of another thread between the two renames. -/
def disturbedPush (r : Request) : List (Bool × Action) :=
  inThread false (stageSteps r) ++ inThread true (scanSteps r ++ [.delete, .delete]) ++
    inThread false [.renameBinary true] ++ inThread true [.delete, .delete, .publish] ++
    inThread false (scanSteps r ++ [.delete, .delete, .delete, .delete, .publish])

theorem not_isPublished {r : Request} {u : Shared} (h : u.g_manifest = []) :
    ¬IsPublished r u := by
  rintro ⟨m, hm, -⟩
  rw [h] at hm
  cases hm

private theorem sample_failures :
    (run (step (act sampleEnv)) emptyServer
        (undisturbedPush (samplePush "+1.2.3") ++ [((), .publish)])).map (fun s => (s.threads (),
          s.shared.g_manifest, s.shared.dir (samplePush "+1.2.3").filename)) =
        some (.answered 200 [], [], none) ∧
      (run (step (act sampleEnv)) (⟨fun _ => .idle, ⟨fun _ => none, []⟩⟩ : System Bool _ _)
        (disturbedPush (samplePush "1.2.3"))).map (fun s => (s.threads false,
          s.shared.g_manifest, s.shared.dir (samplePush "1.2.3").filename)) =
        some (.answered 200 [], [], none) := by
  decide +kernel

/-- A version with a sign is taken by `parseSemver` and not by the file names that the scan
knows; and a scan of another thread deletes the signature before the binary is there. Both
pushes report success, and neither leaves an entry or a file. -/
theorem success_without_artifact :
    (∃ s, run (step (act sampleEnv)) emptyServer
        (undisturbedPush (samplePush "+1.2.3") ++ [((), .publish)]) = some s ∧
      s.threads () = .answered 200 [] ∧ ¬IsPublished (samplePush "+1.2.3") s.shared ∧
      s.shared.dir (samplePush "+1.2.3").filename = none) ∧
    ∃ s, run (step (act sampleEnv)) ⟨fun _ => .idle, ⟨fun _ => none, []⟩⟩
        (disturbedPush (samplePush "1.2.3")) = some s ∧
      s.threads false = .answered 200 [] ∧ ¬IsPublished (samplePush "1.2.3") s.shared ∧
      s.shared.dir (samplePush "1.2.3").filename = none := by
  obtain ⟨h₁, h₂⟩ := sample_failures
  obtain ⟨s, hs, e⟩ := Option.map_eq_some_iff.mp h₁
  obtain ⟨s', hs', e'⟩ := Option.map_eq_some_iff.mp h₂
  simp only [Prod.mk.injEq] at e e'
  exact ⟨⟨s, hs, e.1, not_isPublished e.2.1, e.2.2⟩,
    s', hs', e'.1, not_isPublished e'.2.1, e'.2.2⟩

end TrafficMonitor.ClientPush
