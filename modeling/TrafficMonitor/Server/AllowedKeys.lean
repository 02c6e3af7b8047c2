import Mathlib.Data.Finset.Insert
import TrafficMonitor.Server.CredentialStore
import TrafficMonitor.Server.LogEndpoints

/-!
# The file of the allowed client keys

`loadAllowedKeys` reads a key of 64 hexadecimal digits and an optional nickname from each line.
`POST /api/admin/client/register` appends one line to the same file. The stream writes the line
when it is closed, after the last check of it; how much of the line reaches the file is an
argument.

Proved here:

* `loadAllowedKeys_append`: an appended line continues the unfinished last line of the file;
* `registered_iff`: when the file that a registration leaves is read as what it left in memory.
-/

namespace TrafficMonitor.AllowedKeys

open Bytes Dashboard WebAuthn LogEndpoints

structure AllowedClientsStore where
  keys : Finset Bytes := ∅
  nicknames : Bytes → Option Bytes := fun _ => none

/-- Insert a key, and its nickname if there is one. -/
def AllowedClientsStore.add (store : AllowedClientsStore) (raw hexKey nickname : Bytes) :
    AllowedClientsStore where
  keys := insert raw store.keys
  nicknames :=
    if nickname = [] then store.nicknames
    else Function.update store.nicknames hexKey (some nickname)

/-! ## Loading -/

def isHex (c : UInt8) : Bool := isHexDigit c || (65 ≤ c && c ≤ 70)

def hexValue (c : UInt8) : Nat :=
  if c ≥ 97 then c.toNat - 97 + 10 else if c ≥ 65 then c.toNat - 65 + 10 else c.toNat - 48

/-- The bytes of pairs of hexadecimal digits. -/
def decodeHex : Bytes → Bytes
  | hi :: lo :: s => UInt8.ofNat (hexValue hi * 16 + hexValue lo) :: decodeHex s
  | _ => []

def isBlank (c : UInt8) : Bool := c = SP || c = TAB

/-- A bar or a control character. -/
def isInvalid (c : UInt8) : Bool := c = 124 || c < 32

/-- The nickname behind the key; one that is invalid is ignored. -/
def readNickname (s : Bytes) : Bytes :=
  let nickname := trimRight isBlank (s.dropWhile isBlank)
  if nickname.length > 64 || nickname.any isInvalid then [] else nickname

def trimEnd (line : Bytes) : Bytes := trimRight (fun c => c = CR || c = LF) line

/-- The key and the nickname of a line that is not ignored. -/
def readLine (line : Bytes) : Option (Bytes × Bytes) :=
  let line := trimEnd line
  if line = [] || line.head? = some 35 then none
  else if line.length < 64 then none
  else if !(line.drop 64).head?.all isBlank then none
  else if !(line.take 64).all isHex then none
  else some (decodeHex (line.take 64), readNickname (line.drop 64))

def loadLine (store : AllowedClientsStore) (line : Bytes) : AllowedClientsStore :=
  match readLine line with
  | none => store
  | some (raw, nickname) => store.add raw (hex raw) nickname

/-- What `std::getline` delivers: an unfinished last line counts if it is not empty. -/
def getlines (file : Bytes) : List Bytes :=
  let t := Lines.split LF file
  t.1 ++ if t.2 = [] then [] else [t.2]

def loadAllowedKeys (file : Bytes) : AllowedClientsStore := (getlines file).foldl loadLine {}

/-! ## Registering -/

/-- What the rate limiter and the stream answer, and how many bytes of the line are written when
the stream is closed. -/
structure RegisterIo where
  tryAcquire : Bool
  opened : Bool
  wrote : Bool
  flushed : Nat
  deriving DecidableEq, Repr

/-- The text of the appended line, without its end. -/
def keyLine (pubkeyHex nickname : Bytes) : Bytes :=
  pubkeyHex ++ if nickname = [] then [] else SP :: nickname

/-- The store, the file and the answer. -/
def register (store : AllowedClientsStore) (file body : Bytes) (io : RegisterIo) :
    AllowedClientsStore × Bytes × Response :=
  if !io.tryAcquire then
    (store, file, (Response.setHeader {} "Retry-After" "60").error 429 "rate limit exceeded")
  else
    let pubkeyHex := jsonGetString body (ascii "pubkey")
    let nickname := jsonGetString body (ascii "nickname")
    if pubkeyHex.length ≠ 64 then
      (store, file, Response.error {} 400 "pubkey must be 64 hex characters")
    else if !pubkeyHex.all isHexDigit then
      (store, file, Response.error {} 400 "pubkey must be lowercase hex")
    else if nickname.length > 64 then
      (store, file, Response.error {} 400 "nickname too long (max 64 characters)")
    else if nickname.any isInvalid then
      (store, file, Response.error {} 400 "nickname contains invalid characters")
    else
      let rawKey := decodeHex pubkeyHex
      if rawKey ∈ store.keys then (store, file, Response.error {} 409 "pubkey already registered")
      else if !io.opened then
        (store, file, Response.error {} 500 "server error: cannot write keys file")
      else
        let file := file ++ (keyLine pubkeyHex nickname ++ [LF]).take io.flushed
        if !io.wrote then
          (store, file, Response.error {} 500 "server error: cannot write keys file")
        else (store.add rawKey pubkeyHex nickname, file,
          Response.setContent {} (ascii "\x7b\"ok\":true,\"client_id\":\"" ++ jsonEsc pubkeyHex ++
            ascii "\"\x7d\n") kJson)

/-! ## When the file is read back -/

/-- The nickname does not begin or end with a space. -/
def Trimmed (nickname : Bytes) : Prop :=
  nickname.head? ≠ some SP ∧ nickname.getLast? ≠ some SP

/-- The text is the key, in hexadecimal digits of either case. -/
def Spells (text pubkeyHex : Bytes) : Prop :=
  text.length = 64 ∧ text.all isHex = true ∧ decodeHex text = decodeHex pubkeyHex

/-- The file ends with a complete line, at most the end of the new line is missing, and the
nickname is trimmed. Otherwise the unfinished last line and what is written of the key happen to
spell the key. -/
def Kept (file pubkeyHex nickname : Bytes) (flushed : Nat) : Prop :=
  ((Lines.split LF file).2 = [] ∧ (keyLine pubkeyHex nickname).length ≤ flushed ∧ Trimmed nickname) ∨
    ((Lines.split LF file).2 ≠ [] ∧ nickname = [] ∧
      Spells ((Lines.split LF file).2 ++ pubkeyHex.take flushed) pubkeyHex)

/-! ## Appending -/

theorem readLine_nil : readLine [] = none := rfl

theorem loadAllowedKeys_eq (file : Bytes) : loadAllowedKeys file =
    loadLine ((Lines.split LF file).1.foldl loadLine {}) (Lines.split LF file).2 := by
  rw [loadAllowedKeys, getlines, List.foldl_append]
  split
  · rename_i h
    rw [h]
    rfl
  · rfl

theorem split_append {file text : Bytes} (h : LF ∉ text) : Lines.split LF (file ++ text) =
    ((Lines.split LF file).1, (Lines.split LF file).2 ++ text) := by
  obtain ⟨hfile, hlines, hrest⟩ := Lines.split_spec LF file
  have := Lines.split_join_append LF (Lines.split LF file).1 ((Lines.split LF file).2 ++ text) hlines
    (by simp [hrest, h])
  rwa [← List.append_assoc, ← hfile] at this

/-- **Appending.** The part of a new line that is written continues the last line of the file. -/
theorem loadAllowedKeys_append {text : Bytes} (h : LF ∉ text) (file : Bytes) (n : Nat) :
    loadAllowedKeys (file ++ (text ++ [LF]).take n) =
      loadLine ((Lines.split LF file).1.foldl loadLine {})
        ((Lines.split LF file).2 ++ text.take n) := by
  by_cases hn : n ≤ text.length
  · rw [List.take_append_of_le_length hn, loadAllowedKeys_eq,
      split_append fun hm => h (List.mem_of_mem_take hm)]
  · have hsplit : Lines.split LF (file ++ (text ++ [LF])) =
        ((Lines.split LF file).1 ++ [(Lines.split LF file).2 ++ text], []) := by
      obtain ⟨hfile, hlines, hrest⟩ := Lines.split_spec LF file
      have := Lines.split_join LF ((Lines.split LF file).1 ++ [(Lines.split LF file).2 ++ text])
        (by simpa [or_imp, forall_and, hrest, h] using hlines)
      rw [Lines.join_append] at this
      simpa [← hfile, ← List.append_assoc] using this
    rw [List.take_of_length_le (by simp; omega), List.take_of_length_le (by omega),
      loadAllowedKeys_eq, hsplit]
    simp only [List.foldl_append, List.foldl_cons, List.foldl_nil]
    rfl

/-- Nicknames are of keys. -/
def Named (store : AllowedClientsStore) : Prop :=
  ∀ hexKey, store.nicknames hexKey ≠ none → ∃ raw ∈ store.keys, hex raw = hexKey

theorem Named.loadLine {store : AllowedClientsStore} (h : Named store) (line : Bytes) :
    Named (loadLine store line) := by
  unfold AllowedKeys.loadLine
  split
  · exact h
  · rename_i raw nickname _
    intro hexKey hne
    by_cases hk : hexKey = hex raw
    · exact ⟨raw, by simp [AllowedClientsStore.add], hk.symm⟩
    · have hold : store.nicknames hexKey ≠ none := by
        simp only [AllowedClientsStore.add] at hne
        split at hne
        · exact hne
        · rwa [Function.update_of_ne hk] at hne
      obtain ⟨r, hr, hx⟩ := h hexKey hold
      exact ⟨r, by simp [AllowedClientsStore.add, hr], hx⟩

theorem named_foldl {store : AllowedClientsStore} (h : Named store) (lines : List Bytes) :
    Named (lines.foldl AllowedKeys.loadLine store) := by
  induction lines generalizing store with
  | nil => exact h
  | cons line lines ih => exact ih (h.loadLine line)

/-! ## One line -/

theorem hexDigit_hexValue {c : UInt8} (h : isHexDigit c = true) :
    hexValue c < 16 ∧ hexDigit (hexValue c) = c ∧ isHex c = true := by
  have : ∀ c, isHexDigit c = true → hexValue c < 16 ∧ hexDigit (hexValue c) = c ∧ isHex c = true := by
    decide +kernel
  exact this c h

theorem hex_decodeHex {s : Bytes} (h : s.all isHexDigit = true) (heven : s.length % 2 = 0) :
    hex (decodeHex s) = s := by
  fun_induction decodeHex s with
  | case1 hi lo s ih =>
    simp only [List.all_cons, Bool.and_eq_true] at h
    obtain ⟨hhi, hdhi, -⟩ := hexDigit_hexValue h.1
    obtain ⟨hlo, hdlo, -⟩ := hexDigit_hexValue h.2.1
    have hn : (UInt8.ofNat (hexValue hi * 16 + hexValue lo)).toNat = hexValue hi * 16 + hexValue lo := by
      rw [UInt8.toNat_ofNat']
      omega
    have ih := ih h.2.2 (by simp at heven; omega)
    rw [hex] at ih ⊢
    rw [List.flatMap_cons, hn, ih, show (hexValue hi * 16 + hexValue lo) / 16 = hexValue hi by omega,
      show (hexValue hi * 16 + hexValue lo) % 16 = hexValue lo by omega, hdhi, hdlo]
    rfl
  | case2 s hs =>
    rcases s with _ | ⟨hi, _ | ⟨lo, s⟩⟩
    · rfl
    · simp at heven
    · exact absurd rfl (hs hi lo s)

theorem isBlank_of_isHex {c : UInt8} (h : isHex c = true) :
    isBlank c = false ∧ c ≠ CR ∧ c ≠ LF ∧ c ≠ 35 := by
  have : ∀ c, isHex c = true → isBlank c = false ∧ c ≠ CR ∧ c ≠ LF ∧ c ≠ 35 := by decide +kernel
  exact this c h

/-- What a line is read as. -/
theorem readLine_eq_some {line raw nickname : Bytes} : readLine line = some (raw, nickname) ↔
    ∃ key t, trimEnd line = key ++ t ∧ key.length = 64 ∧ key.all isHex = true ∧
      t.head?.all isBlank = true ∧ raw = decodeHex key ∧ nickname = readNickname t := by
  constructor
  · intro h
    unfold readLine at h
    dsimp only at h
    split at h
    · cases h
    split at h
    · cases h
    rename_i hlen
    split at h
    · cases h
    rename_i hblank
    split at h
    · cases h
    rename_i hhex
    obtain ⟨rfl, rfl⟩ := Prod.mk.inj (Option.some.inj h)
    exact ⟨_, _, (List.take_append_drop 64 _).symm, by simp; omega, by simpa using hhex,
      by simpa using hblank, rfl, rfl⟩
  · rintro ⟨key, t, ht, hlen, hhex, hblank, rfl, rfl⟩
    have hhead : ∃ c s, key = c :: s := List.exists_cons_of_length_pos (by omega)
    obtain ⟨c, s, rfl⟩ := hhead
    have hc := isBlank_of_isHex (List.all_eq_true.mp hhex c (by simp))
    have htake : (c :: s ++ t).take 64 = c :: s := by rw [← hlen]; exact List.take_left
    have hdrop : (c :: s ++ t).drop 64 = t := by rw [← hlen]; exact List.drop_left
    unfold readLine
    dsimp only
    rw [ht, htake, hdrop, if_neg (by simp [hc.2.2.2]), if_neg (by simp at hlen ⊢; omega),
      if_neg (by simp [hblank]), if_neg (by simp [hhex])]

theorem trimEnd_of_last {line : Bytes} (h : ∀ hl : line ≠ [], line.getLast hl ≠ CR ∧ line.getLast hl ≠ LF) :
    trimEnd line = line :=
  trimRight_of_last fun hl => by simp [h hl]

theorem trimRight_append_of_last {p : UInt8 → Bool} {a : Bytes} (ha : ∀ hl : a ≠ [], p (a.getLast hl) = false)
    (b : Bytes) : trimRight p (a ++ b) = a ++ trimRight p b := by
  induction b using List.reverseRecOn with
  | nil =>
    rw [List.append_nil, trimRight_of_last ha]
    simp [trimRight]
  | append_singleton b c ih =>
    unfold trimRight at ih ⊢
    rw [← List.append_assoc, List.rdropWhile_concat, List.rdropWhile_concat, ih]
    split
    · rfl
    · rw [List.append_assoc]

/-- A nickname that the endpoint accepts has no line end and no tab. -/
theorem valid_of_any {nickname : Bytes} (h : nickname.any isInvalid = false) {c : UInt8}
    (hc : c ∈ nickname) : c ≠ CR ∧ c ≠ LF ∧ c ≠ TAB := by
  have hc := List.any_eq_false.mp h c hc
  have : ∀ c, ¬isInvalid c = true → c ≠ CR ∧ c ≠ LF ∧ c ≠ TAB := by decide +kernel
  exact this c hc

theorem trim_eq_self_iff {s : Bytes} (h : TAB ∉ s) :
    trimRight isBlank (s.dropWhile isBlank) = s ↔ Trimmed s := by
  have hblank {c : UInt8} (hc : c ∈ s) : isBlank c = true ↔ c = SP := by
    have hne : c ≠ TAB := fun he => h (he ▸ hc)
    simp [isBlank, hne]
  cases s with
  | nil => exact iff_of_true rfl ⟨by simp, by simp⟩
  | cons c s =>
    have hlast := hblank (List.getLast_mem (List.cons_ne_nil c s))
    have hhead := hblank (List.mem_cons_self (a := c) (l := s))
    rw [Trimmed, List.head?_cons, List.getLast?_eq_some_getLast (List.cons_ne_nil c s)]
    constructor
    · intro he
      have hd : (c :: s).dropWhile isBlank = c :: s :=
        (List.dropWhile_suffix _).eq_of_length_le
          (by conv_lhs => rw [← he]
              exact (List.rdropWhile_prefix _ _).length_le)
      rw [hd] at he
      have hl := List.rdropWhile_eq_self_iff.mp he (List.cons_ne_nil c s)
      have hh := List.dropWhile_eq_self_iff.mp hd (by simp)
      rw [hlast] at hl
      rw [List.getElem_cons_zero, hhead] at hh
      exact ⟨by simpa using hh, by simpa using hl⟩
    · rintro ⟨hh, hl⟩
      have hd : (c :: s).dropWhile isBlank = c :: s :=
        List.dropWhile_eq_self_iff.mpr fun _ => by
          rw [List.getElem_cons_zero, hhead]
          simpa using hh
      rw [hd]
      exact List.rdropWhile_eq_self_iff.mpr fun _ => by
        rw [hlast]
        simpa using hl

/-- The nickname that is read behind a space. -/
theorem readNickname_space {s : Bytes} (hlen : s.length ≤ 64) (hvalid : s.any isInvalid = false) :
    readNickname (SP :: s) = trimRight isBlank (s.dropWhile isBlank) := by
  have hsub : (trimRight isBlank (s.dropWhile isBlank)).Sublist s :=
    (List.rdropWhile_prefix _ _).sublist.trans (List.dropWhile_sublist _)
  rw [readNickname, List.dropWhile_cons_of_pos (by decide)]
  refine if_neg ?_
  rw [Bool.or_eq_true, decide_eq_true_eq, not_or]
  refine ⟨by have := hsub.length_le; omega, ?_⟩
  rw [Bool.not_eq_true, List.any_eq_false]
  exact fun c hc => List.any_eq_false.mp hvalid c (hsub.subset hc)

theorem readNickname_nil : readNickname [] = [] := rfl

/-- The nickname is read back from the first `m` bytes behind the key exactly if these are all
and it is trimmed. -/
theorem readNickname_take {nickname : Bytes} (hlen : nickname.length ≤ 64)
    (hvalid : nickname.any isInvalid = false) (m : Nat) :
    readNickname ((if nickname = [] then [] else SP :: nickname).take m) = nickname ↔
      (if nickname = [] then [] else SP :: nickname).length ≤ m ∧ Trimmed nickname := by
  by_cases hne : nickname = []
  · simp [hne, readNickname_nil, Trimmed]
  rw [if_neg hne, List.length_cons]
  have htab : TAB ∉ nickname := fun hc => (valid_of_any hvalid hc).2.2 rfl
  by_cases hm : nickname.length + 1 ≤ m
  · rw [List.take_of_length_le (by simpa using hm), readNickname_space hlen hvalid,
      trim_eq_self_iff htab]
    simp [hm]
  · refine iff_of_false (fun h => ?_) (by simp [hm])
    cases m with
    | zero => exact hne (by simpa [readNickname_nil] using h.symm)
    | succ m =>
      have hsub : (nickname.take m).any isInvalid = false := by
        rw [List.any_eq_false] at hvalid ⊢
        exact fun c hc => hvalid c (List.mem_of_mem_take hc)
      rw [List.take_succ_cons, readNickname_space (by simp; omega) hsub] at h
      have hle : (trimRight isBlank ((nickname.take m).dropWhile isBlank)).length ≤ m :=
        ((List.rdropWhile_prefix _ _).sublist.trans (List.dropWhile_sublist _)).length_le.trans
          (List.length_take_le m nickname)
      rw [h] at hle
      omega

/-! ## One registration -/

theorem decodeHex_hex (raw : Bytes) : decodeHex (hex raw) = raw := by
  induction raw with
  | nil => rfl
  | cons b raw ih =>
    have hb := b.toNat_lt
    have hv (n : Nat) (h : n < 16) : hexValue (hexDigit n) = n := by
      have : ∀ n < 16, hexValue (hexDigit n) = n := by decide
      exact this n h
    rw [hex] at ih ⊢
    simp only [List.flatMap_cons, List.cons_append, List.nil_append, decodeHex, ih]
    rw [hv _ (by omega), hv _ (by omega), show b.toNat / 16 * 16 + b.toNat % 16 = b.toNat by omega,
      UInt8.ofNat_toNat]

theorem nicknames_eq_none {store : AllowedClientsStore} (h : Named store) {pubkeyHex : Bytes}
    (hnew : decodeHex pubkeyHex ∉ store.keys) : store.nicknames pubkeyHex = none := by
  by_contra hne
  obtain ⟨raw, hmem, hraw⟩ := h pubkeyHex hne
  rw [← hraw, decodeHex_hex] at hnew
  exact hnew hmem

theorem add_right_inj {store : AllowedClientsStore} {raw hexKey a b : Bytes}
    (h : store.nicknames hexKey = none) : store.add raw hexKey a = store.add raw hexKey b ↔ a = b := by
  refine ⟨fun he => ?_, fun he => by rw [he]⟩
  have he := congrFun (congrArg AllowedClientsStore.nicknames he) hexKey
  simp only [AllowedClientsStore.add] at he
  split at he <;> split at he <;> simp_all

theorem mem_loadLine {store : AllowedClientsStore} {line raw : Bytes} :
    raw ∈ (loadLine store line).keys ↔ raw ∈ store.keys ∨ ∃ nickname, readLine line = some (raw, nickname) := by
  unfold loadLine
  cases hl : readLine line with
  | none => simp
  | some p =>
    obtain ⟨r, nickname⟩ := p
    simp only [AllowedClientsStore.add, Finset.mem_insert, Option.some.injEq, Prod.mk.injEq]
    constructor
    · rintro (rfl | h)
      · exact .inr ⟨nickname, rfl, rfl⟩
      · exact .inl h
    · rintro (h | ⟨_, rfl, -⟩)
      · exact .inr h
      · exact .inl rfl

section Line

variable {pubkeyHex nickname : Bytes}

theorem isHex_of_key (hhex : pubkeyHex.all isHexDigit = true) : pubkeyHex.all isHex = true :=
  List.all_eq_true.mpr fun c hc => (hexDigit_hexValue (List.all_eq_true.mp hhex c hc)).2.2

/-- No byte of the new line ends a line. -/
theorem not_end_of_mem (hhex : pubkeyHex.all isHexDigit = true)
    (hvalid : nickname.any isInvalid = false) {c : UInt8} (hc : c ∈ keyLine pubkeyHex nickname) :
    c ≠ CR ∧ c ≠ LF := by
  rcases List.mem_append.mp hc with hc | hc
  · exact ⟨(isBlank_of_isHex (List.all_eq_true.mp (isHex_of_key hhex) c hc)).2.1,
      (isBlank_of_isHex (List.all_eq_true.mp (isHex_of_key hhex) c hc)).2.2.1⟩
  · split at hc
    · cases hc
    · rcases List.mem_cons.mp hc with rfl | hc
      · decide
      · exact ⟨(valid_of_any hvalid hc).1, (valid_of_any hvalid hc).2.1⟩

/-- What is written of the line is not trimmed at its end. -/
theorem trimEnd_append (hhex : pubkeyHex.all isHexDigit = true)
    (hvalid : nickname.any isInvalid = false) (rest : Bytes) {n : Nat}
    (hne : (keyLine pubkeyHex nickname).take n ≠ []) :
    trimEnd (rest ++ (keyLine pubkeyHex nickname).take n) =
      rest ++ (keyLine pubkeyHex nickname).take n := by
  refine trimEnd_of_last fun hl => ?_
  rw [List.getLast_append_of_ne_nil hl hne]
  exact not_end_of_mem hhex hvalid (List.mem_of_mem_take (List.getLast_mem hne))

/-- On a line of its own. -/
theorem readLine_alone (hlen : pubkeyHex.length = 64) (hhex : pubkeyHex.all isHexDigit = true)
    (hvalid : nickname.any isInvalid = false) (n : Nat) :
    readLine ((keyLine pubkeyHex nickname).take n) =
      if n < 64 then none
      else some (decodeHex pubkeyHex,
        readNickname ((if nickname = [] then [] else SP :: nickname).take (n - 64))) := by
  split
  · rename_i hn
    cases hl : readLine ((keyLine pubkeyHex nickname).take n) with
    | none => rfl
    | some p =>
      obtain ⟨key, t, ht, hkey, -⟩ := readLine_eq_some.mp hl
      have hle := (List.rdropWhile_prefix (fun c => c = CR || c = LF)
        ((keyLine pubkeyHex nickname).take n)).length_le
      rw [show List.rdropWhile _ _ = key ++ t from ht, List.length_append] at hle
      have := List.length_take_le n (keyLine pubkeyHex nickname)
      omega
  · rename_i hn
    have htake : (keyLine pubkeyHex nickname).take n =
        pubkeyHex ++ (if nickname = [] then [] else SP :: nickname).take (n - 64) := by
      rw [keyLine, List.take_append, List.take_of_length_le (by omega), hlen]
    have hend := trimEnd_append hhex hvalid [] (n := n) (by
      rw [htake]
      intro h
      simp [List.append_eq_nil_iff.mp h] at hlen)
    refine readLine_eq_some.mpr ⟨pubkeyHex, _, by rw [← htake]; exact hend, hlen,
      isHex_of_key hhex, ?_, rfl, rfl⟩
    cases n - 64 with
    | zero => rfl
    | succ m => split <;> rfl

/-- The beginning of a line that is long enough decides about its key. -/
theorem readLine_prefix {rest text raw o : Bytes} (hrest : 64 ≤ rest.length)
    (htext : trimEnd (rest ++ text) = rest ++ text) (h : readLine (rest ++ text) = some (raw, o)) :
    ∃ o', readLine rest = some (raw, o') := by
  obtain ⟨key, t, ht, hkey, hhex, hblank, rfl, -⟩ := readLine_eq_some.mp h
  rw [htext] at ht
  have hsplit : rest = key ++ t.take (rest.length - 64) := by
    have := congrArg (List.take rest.length) ht
    rwa [List.take_left, List.take_append, List.take_of_length_le (by omega), hkey] at this
  have hne : key ≠ [] := by
    rintro rfl
    cases hkey
  have hlast (hl : key ≠ []) : (fun c => decide (c = CR) || decide (c = LF)) (key.getLast hl) = false := by
    have := isBlank_of_isHex (List.all_eq_true.mp hhex _ (List.getLast_mem hl))
    simp [this.2.1, this.2.2.1]
  refine ⟨_, readLine_eq_some.mpr ⟨key, trimEnd (t.take (rest.length - 64)), ?_, hkey, hhex, ?_,
    rfl, rfl⟩⟩
  · conv_lhs => rw [hsplit]
    exact trimRight_append_of_last hlast _
  · -- the byte behind the key stays, or all of them are trimmed
    have hpre : trimEnd (t.take (rest.length - 64)) <+: t :=
      (List.rdropWhile_prefix _ _).trans (List.take_prefix _ _)
    cases hc : trimEnd (t.take (rest.length - 64)) with
    | nil => rfl
    | cons c s =>
      rw [hc] at hpre
      obtain ⟨u, rfl⟩ := hpre
      exact hblank

/-- Behind an unfinished line. -/
theorem readLine_continued (hlen : pubkeyHex.length = 64) (hhex : pubkeyHex.all isHexDigit = true)
    (hvalid : nickname.any isInvalid = false) {rest : Bytes} (hne : rest ≠ []) {n : Nat} {o : Bytes}
    (hnew : ∀ o', readLine rest ≠ some (decodeHex pubkeyHex, o')) :
    readLine (rest ++ (keyLine pubkeyHex nickname).take n) = some (decodeHex pubkeyHex, o) ↔
      Spells (rest ++ pubkeyHex.take n) pubkeyHex ∧ o = [] := by
  have hpos := List.length_pos_of_ne_nil hne
  constructor
  · intro h
    have htake : (keyLine pubkeyHex nickname).take n ≠ [] := fun h0 =>
      hnew o (by rwa [h0, List.append_nil] at h)
    have htrim := trimEnd_append hhex hvalid rest htake
    have hshort : rest.length < 64 := by
      by_contra hge
      obtain ⟨o', ho'⟩ := readLine_prefix (by omega) htrim h
      exact hnew o' ho'
    obtain ⟨key, t, ht, hkey, hall, hblank, hraw, rfl⟩ := readLine_eq_some.mp h
    rw [htrim] at ht
    have htnil : t = [] := by
      cases t with
      | nil => rfl
      | cons c t =>
        -- the byte behind the first 64 is a digit of the new key
        have hc := congrArg (fun s : Bytes => s[64]?) ht
        simp only [List.getElem?_append_right hshort.le,
          List.getElem?_append_right hkey.le, hkey, Nat.sub_self, List.getElem?_cons_zero,
          List.getElem?_take] at hc
        split at hc
        · rw [keyLine, List.getElem?_append_left (by omega)] at hc
          have hmem := List.mem_of_getElem? hc
          have := isBlank_of_isHex (List.all_eq_true.mp (isHex_of_key hhex) c hmem)
          simp [this.1] at hblank
        · cases hc
    rw [htnil, List.append_nil] at ht
    have hlength := congrArg List.length ht
    rw [List.length_append, List.length_take, hkey, keyLine, List.length_append, hlen] at hlength
    have hn : (keyLine pubkeyHex nickname).take n = pubkeyHex.take n :=
      List.take_append_of_le_length (by omega)
    rw [hn] at ht
    refine ⟨?_, by rw [htnil]; rfl⟩
    rw [ht]
    exact ⟨hkey, hall, hraw.symm⟩
  · rintro ⟨⟨hlength, hall, hdecode⟩, rfl⟩
    have hn : (keyLine pubkeyHex nickname).take n = pubkeyHex.take n := by
      rw [List.length_append, List.length_take, hlen] at hlength
      exact List.take_append_of_le_length (by omega)
    rw [hn]
    refine readLine_eq_some.mpr ⟨_, [], ?_, hlength, hall, rfl, hdecode.symm, rfl⟩
    rw [List.append_nil]
    refine trimEnd_of_last fun hl => ?_
    have := isBlank_of_isHex (List.all_eq_true.mp hall _ (List.getLast_mem hl))
    exact ⟨this.2.1, this.2.2.1⟩

/-- An unfinished line that the new key completes was ignored. -/
theorem readLine_of_spells (hlen : pubkeyHex.length = 64) (hhex : pubkeyHex.all isHexDigit = true)
    (hvalid : nickname.any isInvalid = false) {rest : Bytes} (hne : rest ≠ []) {n : Nat}
    (hnew : ∀ o, readLine rest ≠ some (decodeHex pubkeyHex, o))
    (h : Spells (rest ++ pubkeyHex.take n) pubkeyHex) : readLine rest = none := by
  cases hl : readLine rest with
  | none => rfl
  | some p =>
    obtain ⟨key, t, ht, hkey, -⟩ := readLine_eq_some.mp hl
    have hle := (List.rdropWhile_prefix (fun c => c = CR || c = LF) rest).length_le
    rw [show List.rdropWhile _ _ = key ++ t from ht, List.length_append] at hle
    have hlength := h.1
    rw [List.length_append, List.length_take, hlen] at hlength
    have hn : n = 0 := by omega
    subst hn
    have := (readLine_continued hlen hhex hvalid hne hnew).mpr ⟨h, rfl⟩
    rw [List.take_zero, List.append_nil] at this
    exact absurd this (hnew [])

/-- **One line.** What the last line becomes adds the key and the nickname to what it was. -/
theorem loadLine_append_iff {store : AllowedClientsStore} (hnamed : Named store)
    (hlen : pubkeyHex.length = 64) (hhex : pubkeyHex.all isHexDigit = true)
    (hnick : nickname.length ≤ 64) (hvalid : nickname.any isInvalid = false) {rest : Bytes} (n : Nat)
    (hnew : decodeHex pubkeyHex ∉ (loadLine store rest).keys) :
    loadLine store (rest ++ (keyLine pubkeyHex nickname).take n) =
        (loadLine store rest).add (decodeHex pubkeyHex) pubkeyHex nickname ↔
      (rest = [] ∧ (keyLine pubkeyHex nickname).length ≤ n ∧ Trimmed nickname) ∨
        (rest ≠ [] ∧ nickname = [] ∧ Spells (rest ++ pubkeyHex.take n) pubkeyHex) := by
  have hround : hex (decodeHex pubkeyHex) = pubkeyHex := hex_decodeHex hhex (by omega)
  rw [mem_loadLine, not_or] at hnew
  have hnone := nicknames_eq_none hnamed hnew.1
  by_cases hrest : rest = []
  · subst hrest
    have hnil : loadLine store [] = store := rfl
    rw [hnil, List.nil_append, loadLine, readLine_alone hlen hhex hvalid]
    simp only [true_and, ne_eq, not_true_eq_false, false_and, or_false]
    split
    · rename_i h
      split at h
      · rename_i hn
        refine iff_of_false (fun he => hnew.1 ?_) (fun he => ?_)
        · rw [he]
          simp [AllowedClientsStore.add]
        · have := he.1
          rw [keyLine, List.length_append] at this
          omega
      · cases h
    · rename_i raw o h
      split at h
      · cases h
      · rename_i hn
        obtain ⟨rfl, rfl⟩ := Prod.mk.inj (Option.some.inj h)
        rw [hround, add_right_inj hnone, readNickname_take hnick hvalid, keyLine,
          List.length_append, hlen]
        exact and_congr_left' (by omega)
  · simp only [hrest, false_and, false_or, ne_eq, not_false_eq_true, true_and]
    have hcont {o : Bytes} := readLine_continued (o := o) hlen hhex hvalid hrest (n := n)
      (fun o' h => hnew.2 ⟨o', h⟩)
    constructor
    · intro he
      have hmem : decodeHex pubkeyHex ∈
          (loadLine store (rest ++ (keyLine pubkeyHex nickname).take n)).keys := by
        rw [he]
        simp [AllowedClientsStore.add]
      obtain ⟨o, ho⟩ := (mem_loadLine.mp hmem).resolve_left hnew.1
      obtain ⟨hspells, rfl⟩ := hcont.mp ho
      refine ⟨?_, hspells⟩
      have hshort : loadLine store rest = store := by
        rw [loadLine, readLine_of_spells hlen hhex hvalid hrest (fun o h => hnew.2 ⟨o, h⟩) hspells]
      rw [hshort, loadLine, ho] at he
      dsimp only at he
      rw [hround, add_right_inj hnone] at he
      exact he.symm
    · rintro ⟨rfl, hspells⟩
      have hshort : loadLine store rest = store := by
        rw [loadLine, readLine_of_spells hlen hhex hvalid hrest (fun o h => hnew.2 ⟨o, h⟩) hspells]
      rw [hshort, loadLine, hcont.mpr ⟨hspells, rfl⟩]
      dsimp only
      rw [hround]

end Line

/-- A registration that is answered with success. -/
theorem register_ok {store : AllowedClientsStore} {file body : Bytes} {io : RegisterIo}
    (h : (register store file body io).2.2.status = 200) :
    let pubkeyHex := jsonGetString body (ascii "pubkey")
    let nickname := jsonGetString body (ascii "nickname")
    pubkeyHex.length = 64 ∧ pubkeyHex.all isHexDigit = true ∧ nickname.length ≤ 64 ∧
      nickname.any isInvalid = false ∧ decodeHex pubkeyHex ∉ store.keys ∧
      (register store file body io).1 = store.add (decodeHex pubkeyHex) pubkeyHex nickname ∧
      (register store file body io).2.1 =
        file ++ (keyLine pubkeyHex nickname ++ [LF]).take io.flushed := by
  intro pubkeyHex nickname
  simp only [register] at h ⊢
  split at h
  · cases h
  rename_i hacquire
  split at h
  · cases h
  rename_i hlen
  split at h
  · cases h
  rename_i hhex
  split at h
  · cases h
  rename_i hnick
  split at h
  · cases h
  rename_i hvalid
  split at h
  · cases h
  rename_i hnew
  split at h
  · cases h
  rename_i hopened
  split at h
  · cases h
  rename_i hwrote
  refine ⟨not_not.mp hlen, by simpa using hhex, Nat.not_lt.mp hnick, by simpa using hvalid, hnew,
    ?_, ?_⟩ <;>
    rw [if_neg hacquire, if_neg hlen, if_neg hhex, if_neg hnick, if_neg hvalid, if_neg hnew,
      if_neg hopened, if_neg hwrote]

/-- **Registration.** After a registration that is answered with success, to a store that was
loaded from the file, the file is read as what is in memory exactly if the line was kept. -/
theorem registered_iff {file body : Bytes} {io : RegisterIo}
    (h : (register (loadAllowedKeys file) file body io).2.2.status = 200) :
    loadAllowedKeys (register (loadAllowedKeys file) file body io).2.1 =
        (register (loadAllowedKeys file) file body io).1 ↔
      Kept file (jsonGetString body (ascii "pubkey")) (jsonGetString body (ascii "nickname"))
        io.flushed := by
  obtain ⟨hlen, hhex, hnick, hvalid, hnew, hstore, hfile⟩ := register_ok h
  have hend : LF ∉ keyLine (jsonGetString body (ascii "pubkey")) (jsonGetString body (ascii "nickname")) :=
    fun hm => (not_end_of_mem hhex hvalid hm).2 rfl
  rw [hstore, hfile, loadAllowedKeys_append hend, Kept]
  rw [loadAllowedKeys_eq] at hnew ⊢
  refine loadLine_append_iff (named_foldl ?_ _) hlen hhex hnick hvalid io.flushed hnew
  exact fun hexKey hne => absurd rfl hne

/-- A request for the key of 64 digits `a` and a nickname. -/
private def requestOf (nickname : Bytes) : Bytes :=
  ascii "\x7b\"pubkey\":\"" ++ List.replicate 64 97 ++ ascii "\",\"nickname\":\"" ++ nickname ++
    ascii "\"\x7d"

theorem registered_iff_empty :
    let r := register (loadAllowedKeys []) [] (requestOf (ascii "x")) ⟨true, true, true, 100⟩
    r.2.2.status = 200 ∧ (loadAllowedKeys r.2.1 = r.1 ↔ Kept [] (List.replicate 64 97) (ascii "x") 100) := by
  have hkey : jsonGetString (requestOf (ascii "x")) (ascii "pubkey") = List.replicate 64 97 := by
    decide +kernel
  have hnick : jsonGetString (requestOf (ascii "x")) (ascii "nickname") = ascii "x" := by
    decide +kernel
  have h := @registered_iff [] (requestOf (ascii "x")) ⟨true, true, true, 100⟩ (by decide +kernel)
  rw [hkey, hnick] at h
  exact ⟨by decide +kernel, h⟩

/-- A file whose last line is not finished loses the key of that line and the new one. A nickname
with a space at its end is read without it. -/
theorem registrations_lost :
    let io : RegisterIo := ⟨true, true, true, 200⟩
    let file : Bytes := List.replicate 64 98
    let r := register (loadAllowedKeys file) file (requestOf []) io
    let q := register (loadAllowedKeys []) [] (requestOf (ascii "x ")) io
    (r.2.2.status = 200 ∧ r.1.keys.card = 2 ∧ loadAllowedKeys r.2.1 ≠ r.1 ∧
      (loadAllowedKeys r.2.1).keys = ∅) ∧
    q.2.2.status = 200 ∧ q.1.nicknames (List.replicate 64 97) = some (ascii "x ") ∧
      (loadAllowedKeys q.2.1).nicknames (List.replicate 64 97) = some (ascii "x") := by
  refine ⟨⟨by decide +kernel, by decide +kernel, fun h => ?_, by decide +kernel⟩,
    by decide +kernel, by decide +kernel, by decide +kernel⟩
  have h := congrArg (fun store => store.keys.card) h
  revert h
  decide +kernel

end TrafficMonitor.AllowedKeys
