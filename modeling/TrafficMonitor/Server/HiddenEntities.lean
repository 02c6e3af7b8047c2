import Mathlib.Data.Finset.Max
import Mathlib.Data.Finset.Prod
import TrafficMonitor.Server.CredentialStore
import TrafficMonitor.Server.LogEndpoints

/-!
# Hidden clients and interfaces

`HiddenEntitiesStore` holds the clients and the interfaces that the dashboard leaves out. Each
request of an administrator changes the store in memory and then rewrites its file.
`saveHiddenEntities` escapes the names that it writes; `loadHiddenEntities` searches for
delimiters and does not unescape.

Proved here:

* `readObjects_ifacesText`: names without quotes and closing braces are read back escaped;
* `hidden_iff`: which stores are read back as they were saved, and what a failed save leaves in
  memory.
-/

namespace TrafficMonitor.Hidden

open Bytes Dashboard WebAuthn LogEndpoints

structure HiddenEntitiesStore where
  hiddenClients : Finset Bytes := ∅
  hiddenIfaces : Finset (Bytes × Bytes) := ∅
  deriving DecidableEq

/-! ## Saving -/

def clientsText : Bool → List Bytes → Bytes
  | _, [] => []
  | first, id :: cs =>
    (if first then [] else [COMMA]) ++ ascii "\n    " ++ quoted (jsonEsc id) ++ clientsText false cs

/-- What stands between the braces of one pair. -/
def pairText (p : Bytes × Bytes) : Bytes :=
  quoted (ascii "client_id") ++ COLON :: (quoted (jsonEsc p.1) ++ COMMA ::
    (quoted (ascii "iface") ++ COLON :: quoted (jsonEsc p.2)))

def ifacesText : Bool → List (Bytes × Bytes) → Bytes
  | _, [] => []
  | first, p :: ps =>
    (if first then [] else [COMMA]) ++ ascii "\n    " ++ LBRACE :: (pairText p ++ RBRACE ::
      ifacesText false ps)

/-- The orders in which the two sets are iterated. -/
structure Listing (store : HiddenEntitiesStore) where
  clients : List Bytes
  ifaces : List (Bytes × Bytes)
  clients_eq : clients.toFinset = store.hiddenClients
  ifaces_eq : ifaces.toFinset = store.hiddenIfaces

/-- What `saveHiddenEntities` writes. -/
def hiddenText (clients : List Bytes) (ifaces : List (Bytes × Bytes)) : Bytes :=
  ascii "\x7b\n  " ++ (quoted (ascii "hidden_clients") ++ COLON :: (ascii " [" ++
    (clientsText true clients ++ (ascii "\n  ],\n  " ++ (quoted (ascii "hidden_interfaces") ++
      COLON :: (ascii " [" ++ (ifacesText true ifaces ++ ascii "\n  ]\n\x7d\n")))))))

/-! ## Loading -/

/-- The strings of 64 bytes between pairs of quotes. -/
def readStrings (s : Bytes) : List Bytes :=
  match h : Lines.cut QUOTE s with
  | none => []
  | some (_, s₁) => match h₁ : Lines.cut QUOTE s₁ with
    | none => []
    | some (id, s₂) =>
      have : s₂.length < s.length := (Lines.cut_length h₁).trans (Lines.cut_length h)
      if id.length = 64 then id :: readStrings s₂ else readStrings s₂
termination_by s.length

def loadClients (content : Bytes) : List Bytes :=
  match findAfter (quoted (ascii "hidden_clients")) content with
  | none => []
  | some s => match Lines.cut LBRACKET s with
    | none => []
    | some (_, s) => match Lines.cut RBRACKET s with
      | none => []
      | some (region, _) => readStrings region

def extractVal (obj key : Bytes) : Bytes :=
  match findAfter (quoted key) obj with
  | none => []
  | some s => match Lines.cut COLON s with
    | none => []
    | some (_, s) => match Lines.cut QUOTE s with
      | none => []
      | some (_, s) => match Lines.cut QUOTE s with
        | none => []
        | some (v, _) => v

/-- The loop over the objects that begin within the next `n` bytes. -/
def readObjects (n : Nat) (s : Bytes) : List (Bytes × Bytes) :=
  if n = 0 then []
  else match Lines.cut LBRACE s with
    | none => []
    | some (before, s) =>
      if before.length ≥ n then []
      else match Lines.cut RBRACE s with
        | none => []
        | some (inner, s) =>
          let obj := LBRACE :: inner ++ [RBRACE]
          let clientId := extractVal obj (ascii "client_id")
          let iface := extractVal obj (ascii "iface")
          let rest := readObjects (n - (before.length + inner.length + 2)) s
          if clientId.length = 64 && !iface.isEmpty then (clientId, iface) :: rest else rest
termination_by n
decreasing_by omega

/-- The list ends at the last closing bracket of the file. -/
def loadIfaces (content : Bytes) : List (Bytes × Bytes) :=
  match findAfter (quoted (ascii "hidden_interfaces")) content with
  | none => []
  | some s => match Lines.cut LBRACKET s with
    | none => []
    | some (_, s) => readObjects ((trimRight (· ≠ RBRACKET) s).length - 1) s

def loadHiddenEntities (content : Bytes) : HiddenEntitiesStore where
  hiddenClients := (loadClients content).toFinset
  hiddenIfaces := (loadIfaces content).toFinset

/-! ## Requests -/

def hiddenReply (hidden : Bool) : Response :=
  Response.setContent {} (ascii "\x7b\"ok\":true,\"hidden\":" ++
    ascii (if hidden then "true" else "false") ++ ascii "\x7d\n") kJson

/-- `POST /api/admin/hidden/client`; `saved` is what `saveHiddenEntities` answers. -/
def hiddenClient (store : HiddenEntitiesStore) (body : Bytes) (saved : Bool) :
    HiddenEntitiesStore × Response :=
  let clientId := jsonGetString body (ascii "client_id")
  let action := jsonGetString body (ascii "action")
  if !validClientId clientId then
    (store, Response.error {} 400 "client_id must be 64 lowercase hex chars")
  else if action ≠ ascii "hide" && action ≠ ascii "unhide" then
    (store, Response.error {} 400 "action must be hide or unhide")
  else
    let store := { store with
      hiddenClients :=
        if action = ascii "hide" then insert clientId store.hiddenClients
        else store.hiddenClients.erase clientId }
    if !saved then (store, Response.error {} 500 "server error: cannot write hidden entities file")
    else (store, hiddenReply (clientId ∈ store.hiddenClients))

def kMaxIfaceLabelLen : Nat := 64

/-- `POST /api/admin/hidden/interface` -/
def hiddenInterface (store : HiddenEntitiesStore) (body : Bytes) (saved : Bool) :
    HiddenEntitiesStore × Response :=
  let clientId := jsonGetString body (ascii "client_id")
  let iface := jsonGetString body (ascii "iface")
  let action := jsonGetString body (ascii "action")
  if !validClientId clientId then
    (store, Response.error {} 400 "client_id must be 64 lowercase hex chars")
  else if iface.isEmpty || iface.length > kMaxIfaceLabelLen then
    -- the dash is the bytes of U+2013
    (store, { Response.setContent {} (ascii "\x7b\"error\":\"iface must be 1" ++ [226, 128, 147] ++
      ascii "64 characters\"\x7d\n") kJson with status := 400 })
  else if action ≠ ascii "hide" && action ≠ ascii "unhide" then
    (store, Response.error {} 400 "action must be hide or unhide")
  else
    let key := (clientId, iface)
    let store := { store with
      hiddenIfaces :=
        if action = ascii "hide" then insert key store.hiddenIfaces
        else store.hiddenIfaces.erase key }
    if !saved then (store, Response.error {} 500 "server error: cannot write hidden entities file")
    else (store, hiddenReply (key ∈ store.hiddenIfaces))

inductive Request
  | client (body : Bytes)
  | interface (body : Bytes)
  deriving DecidableEq, Repr

def Request.handle (store : HiddenEntitiesStore) (saved : Bool) :
    Request → HiddenEntitiesStore × Response
  | .client body => hiddenClient store body saved
  | .interface body => hiddenInterface store body saved

/-- The request asks for what is the case already. -/
def Request.Idle (store : HiddenEntitiesStore) : Request → Prop
  | .client body => jsonGetString body (ascii "action") = ascii "hide" ↔
    jsonGetString body (ascii "client_id") ∈ store.hiddenClients
  | .interface body => jsonGetString body (ascii "action") = ascii "hide" ↔
    (jsonGetString body (ascii "client_id"), jsonGetString body (ascii "iface")) ∈ store.hiddenIfaces

/-- What the requests admit. -/
structure Admitted (store : HiddenEntitiesStore) : Prop where
  clients : ∀ id ∈ store.hiddenClients, validClientId id = true
  ifaces : ∀ p ∈ store.hiddenIfaces, validClientId p.1 = true ∧ p.2 ≠ [] ∧
    p.2.length ≤ kMaxIfaceLabelLen

/-- A name without quotes, backslashes, closing braces and control characters. -/
def Readable (name : Bytes) : Prop :=
  ∀ b ∈ name, b ≠ QUOTE ∧ b ≠ BACKSLASH ∧ b ≠ RBRACE ∧ 32 ≤ b

/-! ## Texts -/

theorem jsonEsc_of_readable {s : Bytes} (h : Readable s) : jsonEsc s = s := by
  have hbyte : ∀ b, b ≠ QUOTE ∧ b ≠ BACKSLASH ∧ b ≠ RBRACE ∧ 32 ≤ b → escByte b = [b] := by
    decide +kernel
  induction s with
  | nil => rfl
  | cons b s ih =>
    rw [jsonEsc, List.flatMap_cons, ← jsonEsc, hbyte b (h b (by simp)), ih fun c hc => h c (by simp [hc])]
    rfl

/-- The bytes of a client id are none of the delimiters. -/
theorem hex_clean {c : UInt8} (h : isHexDigit c = true) : c ≠ QUOTE ∧ c ≠ BACKSLASH ∧ c ≠ RBRACE ∧
    32 ≤ c ∧ c ≠ LBRACE ∧ c ≠ RBRACKET := by
  have : ∀ c, isHexDigit c = true → c ≠ QUOTE ∧ c ≠ BACKSLASH ∧ c ≠ RBRACE ∧ 32 ≤ c ∧ c ≠ LBRACE ∧
    c ≠ RBRACKET := by decide +kernel
  exact this c h

theorem validClientId_iff {id : Bytes} :
    validClientId id = true ↔ id.length = 64 ∧ ∀ c ∈ id, isHexDigit c = true := by
  simp [validClientId]

theorem readable_of_valid {id : Bytes} (h : validClientId id = true) : Readable id := fun c hc =>
  have := hex_clean ((validClientId_iff.mp h).2 c hc)
  ⟨this.1, this.2.1, this.2.2.1, this.2.2.2.1⟩

theorem jsonEsc_of_valid {id : Bytes} (h : validClientId id = true) : jsonEsc id = id :=
  jsonEsc_of_readable (readable_of_valid h)

theorem quote_not_mem {s : Bytes} (h : Readable s) : QUOTE ∉ s := fun hm => (h QUOTE hm).1 rfl

theorem quoted_eq (s : Bytes) : quoted s = QUOTE :: (s ++ [QUOTE]) := rfl

/-- A quoted text that is not the key is passed over. -/
theorem findAfter_passes {key v u : Bytes} {c : UInt8} (hk : QUOTE ∉ key) (hv : QUOTE ∉ v)
    (hne : v ≠ key) (hc : c ∉ key) (hq : c ≠ QUOTE) :
    findAfter (quoted key) (quoted v ++ c :: u) = findAfter (quoted key) (c :: u) := by
  rw [findAfter_quoted hk hv hne hc hq]
  exact (findAfter_cons (stripPrefix_head hq.symm _ u)).symm

/-! ## The clients -/

theorem readStrings_quoted {before id s : Bytes} (hb : QUOTE ∉ before) (hid : QUOTE ∉ id) :
    readStrings (before ++ (quoted id ++ s)) =
      if id.length = 64 then id :: readStrings s else readStrings s := by
  have h₁ : Lines.cut QUOTE (before ++ (quoted id ++ s)) = some (before, id ++ QUOTE :: s) := by
    rw [← Lines.cut_append QUOTE before _ hb]
    simp [quoted_eq]
  have h₂ := Lines.cut_append QUOTE id s hid
  rw [readStrings]
  split
  · rename_i h
    rw [h₁] at h
    cases h
  · rename_i h
    rw [h₁] at h
    cases h
    split
    · rename_i h
      rw [h₂] at h
      cases h
    · rename_i h
      rw [h₂] at h
      cases h
      rfl

theorem readStrings_of_not_mem {s : Bytes} (h : QUOTE ∉ s) : readStrings s = [] := by
  rw [readStrings]
  split
  · rfl
  · rename_i hc
    rw [Lines.cut_eq_none.mpr h] at hc
    cases hc

theorem readStrings_clientsText {cs : List Bytes} (h : ∀ id ∈ cs, validClientId id = true)
    (first : Bool) : readStrings (clientsText first cs ++ ascii "\n  ") = cs := by
  induction cs generalizing first with
  | nil => exact readStrings_of_not_mem (show QUOTE ∉ ascii "\n  " by decide)
  | cons id cs ih =>
    have hid := h id (by simp)
    rw [clientsText, jsonEsc_of_valid hid, List.append_assoc _ (clientsText false cs),
      List.append_assoc _ (quoted id), readStrings_quoted (by cases first <;> decide)
      (quote_not_mem (readable_of_valid hid)), if_pos (validClientId_iff.mp hid).1,
      ih fun id hid => h id (by simp [hid])]

theorem bracket_not_mem_clientsText {cs : List Bytes} (h : ∀ id ∈ cs, validClientId id = true)
    (first : Bool) : RBRACKET ∉ clientsText first cs := by
  induction cs generalizing first with
  | nil => simp [clientsText]
  | cons id cs ih =>
    have hid := h id (by simp)
    have hsep : RBRACKET ∉ (if first = true then [] else [COMMA]) ++ ascii "\n    " := by
      cases first <;> decide
    have hquoted : RBRACKET ∉ quoted id := by
      have hmem : RBRACKET ∉ id := fun hm =>
        (hex_clean ((validClientId_iff.mp hid).2 _ hm)).2.2.2.2.2 rfl
      have hq : RBRACKET ≠ QUOTE := by decide
      simp [quoted_eq, hmem, hq]
    rw [clientsText, jsonEsc_of_valid hid, List.mem_append, List.mem_append]
    rintro ((hm | hm) | hm)
    · exact hsep hm
    · exact hquoted hm
    · exact ih (fun id hid => h id (by simp [hid])) false hm

/-- The key of the second list is not found among the clients. -/
theorem findAfter_clientsText {cs : List Bytes} (h : ∀ id ∈ cs, validClientId id = true)
    (first : Bool) (t : Bytes) :
    findAfter (quoted (ascii "hidden_interfaces")) (clientsText first cs ++ LF :: t) =
      findAfter (quoted (ascii "hidden_interfaces")) (LF :: t) := by
  induction cs generalizing first with
  | nil => rfl
  | cons id cs ih =>
    have hid := h id (by simp)
    have hne : id ≠ ascii "hidden_interfaces" := by
      rintro rfl
      exact absurd (validClientId_iff.mp hid).1 (by decide)
    have hsep : QUOTE ∉ (if first = true then [] else [COMMA]) ++ ascii "\n    " := by
      cases first <;> decide
    have ih := ih (fun id hid => h id (by simp [hid])) false
    have hnext : ∃ c u, clientsText false cs ++ LF :: t = c :: u ∧ (c = COMMA ∨ c = LF) := by
      cases cs with
      | nil => exact ⟨LF, t, rfl, .inr rfl⟩
      | cons id cs => exact ⟨COMMA, _, rfl, .inl rfl⟩
    obtain ⟨c, u, hcu, hc⟩ := hnext
    rw [clientsText, jsonEsc_of_valid hid, List.append_assoc _ (clientsText false cs),
      List.append_assoc _ (quoted id), ← ih, hcu]
    rw [quoted_eq, findAfter_skip hsep, ← quoted_eq]
    refine findAfter_passes (by decide) (quote_not_mem (readable_of_valid hid)) hne ?_ ?_
    · rcases hc with rfl | rfl <;> decide
    · rcases hc with rfl | rfl <;> decide

theorem loadClients_hiddenText {cs : List Bytes} (h : ∀ id ∈ cs, validClientId id = true)
    (ps : List (Bytes × Bytes)) : loadClients (hiddenText cs ps) = cs := by
  have hopen : QUOTE ∉ ascii "\x7b\n  " := by decide
  have hregion : RBRACKET ∉ clientsText true cs ++ ascii "\n  " := by
    rw [List.mem_append, not_or]
    exact ⟨bracket_not_mem_clientsText h true, by decide⟩
  have hcut (t : Bytes) : Lines.cut LBRACKET (COLON :: (ascii " [" ++ t)) = some ([COLON, SP], t) :=
    Lines.cut_append LBRACKET [COLON, SP] t (by decide)
  have hend (t : Bytes) : clientsText true cs ++ (ascii "\n  ],\n  " ++ t) =
      clientsText true cs ++ ascii "\n  " ++ RBRACKET :: (ascii ",\n  " ++ t) := by
    rw [List.append_assoc]
    rfl
  rw [loadClients, hiddenText, quoted_eq (ascii "hidden_clients"), findAfter_skip hopen,
    ← quoted_eq, findAfter_append _ _ (by simp [quoted_eq])]
  dsimp only
  rw [hcut]
  dsimp only
  rw [hend, Lines.cut_append RBRACKET _ _ hregion]
  exact readStrings_clientsText h true

/-! ## The interfaces -/

theorem findAfter_hiddenText {cs : List Bytes} (h : ∀ id ∈ cs, validClientId id = true)
    (ps : List (Bytes × Bytes)) :
    findAfter (quoted (ascii "hidden_interfaces")) (hiddenText cs ps) =
      some (COLON :: (ascii " [" ++ (ifacesText true ps ++ ascii "\n  ]\n\x7d\n"))) := by
  have hopen : QUOTE ∉ ascii "\x7b\n  " := by decide
  have hcolon : QUOTE ∉ COLON :: ascii " [" := by decide
  have hsep : QUOTE ∉ ascii "\n  ],\n  " := by decide
  have hnext (t : Bytes) : ascii "\n  ],\n  " ++ t = LF :: (ascii "  ],\n  " ++ t) := rfl
  rw [hiddenText, quoted_eq (ascii "hidden_interfaces"), findAfter_skip hopen, ← quoted_eq,
    findAfter_passes (by decide) (by decide) (by decide) (by decide) (by decide), ← List.cons_append,
    quoted_eq (ascii "hidden_interfaces"), findAfter_skip hcolon, ← quoted_eq, hnext,
    findAfter_clientsText h, ← hnext, quoted_eq (ascii "hidden_interfaces"), findAfter_skip hsep,
    ← quoted_eq, findAfter_append _ _ (by simp [quoted_eq])]

/-- The search for objects goes up to the end of the list. -/
theorem loadIfaces_hiddenText {cs : List Bytes} (h : ∀ id ∈ cs, validClientId id = true)
    (ps : List (Bytes × Bytes)) : loadIfaces (hiddenText cs ps) =
      readObjects ((ifacesText true ps).length + 3) (ifacesText true ps ++ ascii "\n  ]\n\x7d\n") := by
  have hcut (t : Bytes) : Lines.cut LBRACKET (COLON :: (ascii " [" ++ t)) = some ([COLON, SP], t) :=
    Lines.cut_append LBRACKET [COLON, SP] t (by decide)
  have htrim (a : Bytes) : trimRight (fun c => decide (c ≠ RBRACKET)) (a ++ ascii "\n  ]\n\x7d\n") =
      a ++ ascii "\n  ]" := by
    have htext : ascii "\n  ]\n\x7d\n" = ascii "\n  ]" ++ [LF] ++ [RBRACE] ++ [LF] := by decide
    have hlast : trimRight (fun c => decide (c ≠ RBRACKET)) (a ++ ascii "\n  ]") = a ++ ascii "\n  ]" := by
      refine trimRight_of_last fun hl => ?_
      rw [List.getLast_append_of_ne_nil hl (by decide)]
      decide
    rw [htext, ← List.append_assoc, ← List.append_assoc, ← List.append_assoc]
    unfold trimRight at hlast ⊢
    rw [List.rdropWhile_concat_pos _ _ _ (by decide), List.rdropWhile_concat_pos _ _ _ (by decide),
      List.rdropWhile_concat_pos _ _ _ (by decide), hlast]
  rw [loadIfaces, findAfter_hiddenText h]
  dsimp only
  rw [hcut]
  dsimp only
  rw [htrim, List.length_append]
  rfl

/-- A value ends at a quote, and the object at its only closing brace. -/
theorem extractVal_clean {inner : Bytes} (h : RBRACE ∉ inner) (key : Bytes) :
    QUOTE ∉ extractVal (LBRACE :: inner ++ [RBRACE]) key ∧
      RBRACE ∉ extractVal (LBRACE :: inner ++ [RBRACE]) key := by
  unfold extractVal
  split
  · simp
  rename_i s hfind
  split
  · simp
  rename_i b s₁ hcolon
  split
  · simp
  rename_i c s₂ hquote
  split
  · simp
  rename_i v t hv
  obtain ⟨a, ha⟩ := findAfter_eq_some hfind
  obtain ⟨rfl, -⟩ := Lines.cut_eq_some.mp hcolon
  obtain ⟨rfl, -⟩ := Lines.cut_eq_some.mp hquote
  obtain ⟨rfl, hquote'⟩ := Lines.cut_eq_some.mp hv
  refine ⟨hquote', fun hmem => ?_⟩
  have hd : (LBRACE :: inner ++ [RBRACE]).dropLast =
      (a ++ (quoted key ++ (b ++ COLON :: (c ++ QUOTE :: v))) ++ QUOTE :: t).dropLast := by
    rw [ha]
    simp
  rw [List.dropLast_concat, List.dropLast_append_of_ne_nil (List.cons_ne_nil _ _)] at hd
  have hin : RBRACE ∈ LBRACE :: inner := by
    rw [hd]
    simp [hmem]
  rcases List.mem_cons.mp hin with hl | hin
  · exact absurd hl (by decide)
  · exact h hin

theorem readObjects_clean {n : Nat} {s : Bytes} {p : Bytes × Bytes} (h : p ∈ readObjects n s) :
    QUOTE ∉ p.2 ∧ RBRACE ∉ p.2 := by
  fun_induction readObjects n s with
  | case1 s => simp at h
  | case2 n s hn hcut => simp at h
  | case3 n s hn before s' hcut hge => simp at h
  | case4 n s hn before s' hcut hlt hcut' => simp at h
  | case5 n s hn before s' hcut hlt inner s'' hcut' obj clientId iface rest hok ih =>
    rcases List.mem_cons.mp h with rfl | h
    · exact extractVal_clean (Lines.cut_eq_some.mp hcut').2 _
    · exact ih h
  | case6 n s hn before s' hcut hlt inner s'' hcut' obj clientId iface rest hok ih => exact ih h

/-- A name that is written without a quote or a closing brace. -/
def Delimited (name : Bytes) : Prop := QUOTE ∉ jsonEsc name ∧ RBRACE ∉ jsonEsc name

theorem delimited_iff {name : Bytes} : Delimited name ↔ QUOTE ∉ name ∧ RBRACE ∉ name := by
  have hquote : ∀ b, QUOTE ∈ escByte b ↔ b = QUOTE := by decide +kernel
  have hbrace : ∀ b, RBRACE ∈ escByte b ↔ b = RBRACE := by decide +kernel
  simp [Delimited, jsonEsc, hquote, hbrace]

theorem brace_not_mem_pairText {p : Bytes × Bytes} (h : validClientId p.1 = true)
    (hp : Delimited p.2) : RBRACE ∉ pairText p := by
  have hid : RBRACE ∉ p.1 := fun hm => (readable_of_valid h _ hm).2.2.1 rfl
  have hkey : RBRACE ∉ quoted (ascii "client_id") ∧ RBRACE ∉ quoted (ascii "iface") ∧
      RBRACE ≠ COLON ∧ RBRACE ≠ COMMA ∧ RBRACE ≠ QUOTE := by decide
  rw [pairText, jsonEsc_of_valid h, quoted_eq p.1, quoted_eq (jsonEsc p.2)]
  simp [hkey, hid, hp.2]

/-- The value behind a key. -/
theorem extractVal_of_find {obj key v t : Bytes} (hv : QUOTE ∉ v)
    (h : findAfter (quoted key) obj = some (COLON :: (quoted v ++ t))) : extractVal obj key = v := by
  have hquote : Lines.cut QUOTE (quoted v ++ t) = some ([], v ++ QUOTE :: t) := by
    rw [← Lines.cut_append QUOTE [] _ (by simp)]
    simp [quoted_eq]
  rw [extractVal, h]
  dsimp only
  rw [← List.nil_append (COLON :: _), Lines.cut_append COLON [] _ (by simp)]
  dsimp only
  rw [hquote]
  dsimp only
  rw [Lines.cut_append QUOTE v t hv]

/-- The values of one object. -/
theorem extractVal_pairText {p : Bytes × Bytes} (h : validClientId p.1 = true) (hp : Delimited p.2) :
    extractVal (LBRACE :: pairText p ++ [RBRACE]) (ascii "client_id") = p.1 ∧
      extractVal (LBRACE :: pairText p ++ [RBRACE]) (ascii "iface") = jsonEsc p.2 := by
  have hid := quote_not_mem (readable_of_valid h)
  have hopen : QUOTE ∉ [LBRACE] := by decide
  have hcolon : QUOTE ∉ [COLON] := by decide
  have hcomma : QUOTE ∉ [COMMA] := by decide
  have hne : p.1 ≠ ascii "iface" := fun he => by
    have := (validClientId_iff.mp h).1
    rw [he] at this
    exact absurd this (by decide)
  rw [pairText, jsonEsc_of_valid h]
  simp only [List.cons_append, List.append_assoc]
  constructor
  · refine extractVal_of_find hid (t := COMMA :: (quoted (ascii "iface") ++ COLON ::
      (quoted (jsonEsc p.2) ++ [RBRACE]))) ?_
    rw [← List.singleton_append (x := LBRACE), quoted_eq (ascii "client_id"), findAfter_skip hopen,
      ← quoted_eq, findAfter_append _ _ (by simp [quoted_eq])]
  · refine extractVal_of_find hp.1 (t := [RBRACE]) ?_
    rw [← List.singleton_append (x := LBRACE), quoted_eq (ascii "iface"), findAfter_skip hopen,
      ← quoted_eq, findAfter_passes (by decide) (by decide) (by decide) (by decide) (by decide),
      ← List.singleton_append (x := COLON), quoted_eq (ascii "iface"), findAfter_skip hcolon,
      ← quoted_eq, findAfter_passes (by decide) hid hne (by decide) (by decide),
      ← List.singleton_append (x := COMMA), quoted_eq (ascii "iface"), findAfter_skip hcomma,
      ← quoted_eq, findAfter_append _ _ (by simp [quoted_eq])]

theorem readObjects_step {n : Nat} {before inner s : Bytes} (hb : LBRACE ∉ before)
    (hi : RBRACE ∉ inner) (hn : before.length < n) :
    readObjects n (before ++ LBRACE :: (inner ++ RBRACE :: s)) =
      if (extractVal (LBRACE :: inner ++ [RBRACE]) (ascii "client_id")).length = 64 &&
          !(extractVal (LBRACE :: inner ++ [RBRACE]) (ascii "iface")).isEmpty then
        (extractVal (LBRACE :: inner ++ [RBRACE]) (ascii "client_id"),
          extractVal (LBRACE :: inner ++ [RBRACE]) (ascii "iface")) ::
            readObjects (n - (before.length + inner.length + 2)) s
      else readObjects (n - (before.length + inner.length + 2)) s := by
  rw [readObjects, if_neg (by omega), Lines.cut_append LBRACE _ _ hb]
  dsimp only
  rw [if_neg (by omega), Lines.cut_append RBRACE _ _ hi]

/-- Names without quotes and closing braces are read back as they were escaped. -/
theorem readObjects_ifacesText {ps : List (Bytes × Bytes)}
    (h : ∀ p ∈ ps, validClientId p.1 = true ∧ Delimited p.2) (first : Bool) :
    readObjects ((ifacesText first ps).length + 3) (ifacesText first ps ++ ascii "\n  ]\n\x7d\n") =
      (ps.map fun p => (p.1, jsonEsc p.2)).filter fun p => !p.2.isEmpty := by
  induction ps generalizing first with
  | nil =>
    have hcut : Lines.cut LBRACE (ascii "\n  ]\n\x7d\n") = none := by decide
    rw [ifacesText, readObjects, if_neg (by omega), List.nil_append, hcut]
    rfl
  | cons p ps ih =>
    obtain ⟨hid, hp⟩ := h p (by simp)
    obtain ⟨hclient, hiface⟩ := extractVal_pairText hid hp
    have hsep : LBRACE ∉ (if first = true then [] else [COMMA]) ++ ascii "\n    " := by
      cases first <;> decide
    have hlen : (ifacesText first (p :: ps)).length + 3 -
        (((if first = true then [] else [COMMA]) ++ ascii "\n    ").length + (pairText p).length + 2) =
          (ifacesText false ps).length + 3 := by
      rw [ifacesText]
      simp only [List.length_append, List.length_cons]
      omega
    have htext : ifacesText first (p :: ps) ++ ascii "\n  ]\n\x7d\n" =
        ((if first = true then [] else [COMMA]) ++ ascii "\n    ") ++ LBRACE :: (pairText p ++ RBRACE ::
          (ifacesText false ps ++ ascii "\n  ]\n\x7d\n")) := by
      rw [ifacesText]
      simp
    rw [htext, readObjects_step hsep (brace_not_mem_pairText hid hp)
      (by rw [ifacesText]; simp only [List.length_append, List.length_cons]; omega), hclient, hiface,
      hlen, ih (fun q hq => h q (by simp [hq])), (validClientId_iff.mp hid).1, List.map_cons,
      List.filter_cons]
    simp

/-! ## Saving and loading -/

theorem le_of_mem_jsonEsc {s : Bytes} {c : UInt8} (h : c ∈ jsonEsc s) : 32 ≤ c := by
  have hbyte : ∀ b, ∀ c ∈ escByte b, 32 ≤ c := by decide +kernel
  obtain ⟨b, -, hc⟩ := List.mem_flatMap.mp h
  exact hbyte b c hc

/-- Escaping at least doubles the backslashes. -/
theorem count_jsonEsc (s : Bytes) : 2 * s.count BACKSLASH ≤ (jsonEsc s).count BACKSLASH := by
  have hbyte : ∀ b, (if b = BACKSLASH then 2 else 0) ≤ (escByte b).count BACKSLASH := by
    decide +kernel
  induction s with
  | nil => rfl
  | cons b s ih =>
    have hb := hbyte b
    rw [jsonEsc, List.flatMap_cons, ← jsonEsc, List.count_append, List.count_cons]
    simp only [beq_iff_eq]
    split at hb <;> simp_all <;> omega

section Store

variable {store : HiddenEntitiesStore}

theorem loadIfaces_of_delimited (h : Admitted store) (l : Listing store)
    (hd : ∀ p ∈ store.hiddenIfaces, Delimited p.2) : loadIfaces (hiddenText l.clients l.ifaces) =
      (l.ifaces.map fun p => (p.1, jsonEsc p.2)).filter fun p => !p.2.isEmpty := by
  have hmem {p : Bytes × Bytes} (hp : p ∈ l.ifaces) : p ∈ store.hiddenIfaces := by
    rw [← l.ifaces_eq]
    exact List.mem_toFinset.mpr hp
  rw [loadIfaces_hiddenText fun id hid => h.clients id (by
    rw [← l.clients_eq]
    exact List.mem_toFinset.mpr hid)]
  exact readObjects_ifacesText (fun p hp => ⟨(h.ifaces p (hmem hp)).1, hd p (hmem hp)⟩) true

/-- **Saving and loading.** -/
theorem load_hiddenText_iff (h : Admitted store) (l : Listing store) :
    loadHiddenEntities (hiddenText l.clients l.ifaces) = store ↔
      ∀ p ∈ store.hiddenIfaces, Readable p.2 := by
  have hvalid : ∀ id ∈ l.clients, validClientId id = true := fun id hid => h.clients id (by
    rw [← l.clients_eq]
    exact List.mem_toFinset.mpr hid)
  constructor
  · intro he
    have hset : (loadIfaces (hiddenText l.clients l.ifaces)).toFinset = store.hiddenIfaces :=
      congrArg HiddenEntitiesStore.hiddenIfaces he
    -- what is loaded has no quotes and no closing braces
    have hdelim : ∀ p ∈ store.hiddenIfaces, Delimited p.2 := fun p hp => by
      rw [← hset, List.mem_toFinset, loadIfaces_hiddenText hvalid] at hp
      exact delimited_iff.mpr (readObjects_clean hp)
    have hload := loadIfaces_of_delimited h l hdelim
    have himage {p : Bytes × Bytes} (hp : p ∈ store.hiddenIfaces) :
        ∃ q ∈ store.hiddenIfaces, p = (q.1, jsonEsc q.2) := by
      rw [← hset, List.mem_toFinset, hload, List.mem_filter, List.mem_map] at hp
      obtain ⟨⟨q, hq, rfl⟩, -⟩ := hp
      exact ⟨q, by rw [← l.ifaces_eq]; exact List.mem_toFinset.mpr hq, rfl⟩
    -- the escaped name of a name with the most backslashes has no more than these
    have hbackslash : ∀ p ∈ store.hiddenIfaces, p.2.count BACKSLASH = 0 := by
      intro p hp
      obtain ⟨m, hm, hmax⟩ := store.hiddenIfaces.exists_max_image (fun q => q.2.count BACKSLASH) ⟨p, hp⟩
      have hle := hmax p hp
      by_contra hpos
      have hesc := count_jsonEsc m.2
      have hmem : (m.1, jsonEsc m.2) ∈ store.hiddenIfaces := by
        rw [← hset, List.mem_toFinset, hload, List.mem_filter]
        refine ⟨List.mem_map.mpr ⟨m, ?_, rfl⟩, ?_⟩
        · rw [← l.ifaces_eq] at hm
          exact List.mem_toFinset.mp hm
        · cases hnil : jsonEsc m.2 with
          | nil =>
            rw [hnil, List.count_nil] at hesc
            omega
          | cons c s => rfl
      have := hmax _ hmem
      dsimp only at this
      omega
    intro p hp b hb
    obtain ⟨hquote, hbrace⟩ := delimited_iff.mp (hdelim p hp)
    refine ⟨fun hq => hquote (hq ▸ hb), fun hq => ?_, fun hq => hbrace (hq ▸ hb), ?_⟩
    · exact List.count_eq_zero.mp (hbackslash p hp) (hq ▸ hb)
    · obtain ⟨q, -, rfl⟩ := himage hp
      exact le_of_mem_jsonEsc hb
  · intro hr
    have hdelim : ∀ p ∈ store.hiddenIfaces, Delimited p.2 := fun p hp =>
      delimited_iff.mpr ⟨quote_not_mem (hr p hp), fun hm => (hr p hp _ hm).2.2.1 rfl⟩
    have hlist : loadIfaces (hiddenText l.clients l.ifaces) = l.ifaces := by
      have hmem {p : Bytes × Bytes} (hp : p ∈ l.ifaces) : p ∈ store.hiddenIfaces := by
        rw [← l.ifaces_eq]
        exact List.mem_toFinset.mpr hp
      rw [loadIfaces_of_delimited h l hdelim]
      have hmap : (l.ifaces.map fun p => (p.1, jsonEsc p.2)) = l.ifaces := by
        conv_rhs => rw [← List.map_id l.ifaces]
        exact List.map_congr_left fun p hp => by rw [jsonEsc_of_readable (hr p (hmem hp))]; rfl
      rw [hmap, List.filter_eq_self]
      exact fun p hp => by simpa using (h.ifaces p (hmem hp)).2.1
    rw [loadHiddenEntities, loadClients_hiddenText hvalid, hlist, l.clients_eq, l.ifaces_eq]

/-- The requests change the sets by what passed their checks. -/
theorem admitted_handle (h : Admitted store) (saved : Bool) (r : Request) :
    Admitted (r.handle store saved).1 := by
  cases r with
  | client body =>
    simp only [Request.handle, hiddenClient]
    split
    · exact h
    rename_i hid
    split
    · exact h
    have hid : validClientId (jsonGetString body (ascii "client_id")) = true := by simpa using hid
    suffices hs : Admitted { store with
        hiddenClients := if jsonGetString body (ascii "action") = ascii "hide" then
          insert (jsonGetString body (ascii "client_id")) store.hiddenClients
          else store.hiddenClients.erase (jsonGetString body (ascii "client_id")) } by
      split <;> exact hs
    refine ⟨fun id hmem => ?_, h.ifaces⟩
    dsimp only at hmem
    split at hmem
    · rcases Finset.mem_insert.mp hmem with rfl | hmem
      · exact hid
      · exact h.clients id hmem
    · exact h.clients id (Finset.mem_of_mem_erase hmem)
  | interface body =>
    simp only [Request.handle, hiddenInterface]
    split
    · exact h
    rename_i hid
    split
    · exact h
    rename_i hlen
    split
    · exact h
    have hid : validClientId (jsonGetString body (ascii "client_id")) = true := by simpa using hid
    have hlen : jsonGetString body (ascii "iface") ≠ [] ∧
        (jsonGetString body (ascii "iface")).length ≤ kMaxIfaceLabelLen := by simpa using hlen
    suffices hs : Admitted { store with
        hiddenIfaces := if jsonGetString body (ascii "action") = ascii "hide" then
          insert (jsonGetString body (ascii "client_id"), jsonGetString body (ascii "iface"))
            store.hiddenIfaces
          else store.hiddenIfaces.erase
            (jsonGetString body (ascii "client_id"), jsonGetString body (ascii "iface")) } by
      split <;> exact hs
    refine ⟨h.clients, fun p hmem => ?_⟩
    dsimp only at hmem
    split at hmem
    · rcases Finset.mem_insert.mp hmem with rfl | hmem
      · exact ⟨hid, hlen⟩
      · exact h.ifaces p hmem
    · exact h.ifaces p (Finset.mem_of_mem_erase hmem)

theorem toggle_eq_iff {α : Type} [DecidableEq α] {s : Finset α} {x : α} (hide : Prop)
    [Decidable hide] : (if hide then insert x s else s.erase x) = s ↔ (hide ↔ x ∈ s) := by
  by_cases h : hide
  · simp [h]
  · simp [h]

/-- After a failed save the store in memory is the old one exactly if the request was idle. -/
theorem handle_failed {r : Request} (h : (r.handle store false).2.status = 500) :
    (r.handle store false).1 = store ↔ r.Idle store := by
  cases r with
  | client body =>
    simp only [Request.handle, hiddenClient] at h ⊢
    split at h
    · cases h
    rename_i hid
    split at h
    · cases h
    rename_i haction
    rw [if_neg hid, if_neg haction, Request.Idle, ← toggle_eq_iff]
    cases store
    simp
  | interface body =>
    simp only [Request.handle, hiddenInterface] at h ⊢
    split at h
    · cases h
    rename_i hid
    split at h
    · cases h
    rename_i hlen
    split at h
    · cases h
    rename_i haction
    rw [if_neg hid, if_neg hlen, if_neg haction, Request.Idle, ← toggle_eq_iff]
    cases store
    simp

/-- **Hidden entities.** What the requests admit stays admitted; it is read back as it was saved
exactly if the names are readable; and a failed save leaves it as it was exactly if the request was
idle. -/
theorem hidden_iff (h : Admitted store) (l : Listing store) :
    (loadHiddenEntities (hiddenText l.clients l.ifaces) = store ↔
        ∀ p ∈ store.hiddenIfaces, Readable p.2) ∧
      ∀ r : Request, (∀ saved, Admitted (r.handle store saved).1) ∧
        ((r.handle store false).2.status = 500 →
          ((r.handle store false).1 = store ↔ r.Idle store)) :=
  ⟨load_hiddenText_iff h l, fun r => ⟨fun saved => admitted_handle h saved r, handle_failed⟩⟩

end Store

/-- The store that hides one interface of the client of 64 letters `a`. -/
private def hidesOne (name : Bytes) : HiddenEntitiesStore where
  hiddenIfaces := {(List.replicate 64 97, name)}

private def hidingListing (name : Bytes) : Listing (hidesOne name) where
  clients := []
  ifaces := [(List.replicate 64 97, name)]
  clients_eq := rfl
  ifaces_eq := rfl

/-- A request to hide an interface of that client. -/
private def hideRequest (name : Bytes) : Request :=
  .interface (ascii "\x7b\"client_id\":\"" ++ List.replicate 64 97 ++ ascii "\",\"iface\":\"" ++
    name ++ ascii "\",\"action\":\"hide\"\x7d")

theorem hidden_iff_eth0 :
    loadHiddenEntities (hiddenText [] [(List.replicate 64 97, ascii "eth0")]) =
        hidesOne (ascii "eth0") ∧
      ((hideRequest (ascii "eth0")).handle (hidesOne (ascii "eth0")) false).2.status = 500 ∧
      ((hideRequest (ascii "eth0")).handle (hidesOne (ascii "eth0")) false).1 =
        hidesOne (ascii "eth0") := by
  have hadmitted : Admitted (hidesOne (ascii "eth0")) :=
    ⟨by decide +kernel, by decide +kernel⟩
  have h := hidden_iff hadmitted (hidingListing (ascii "eth0"))
  have hreadable : ∀ p ∈ (hidesOne (ascii "eth0")).hiddenIfaces, Readable p.2 := by
    intro p hp
    rw [Finset.mem_singleton.mp hp, Readable]
    decide
  have hstatus :
      ((hideRequest (ascii "eth0")).handle (hidesOne (ascii "eth0")) false).2.status = 500 := by
    decide +kernel
  refine ⟨h.1.mpr hreadable, hstatus, ((h.2 _).2 hstatus).mpr ?_⟩
  simp only [hideRequest, Request.Idle]
  decide +kernel

/-- A name with a quote is not read back, and a failed save leaves the interface hidden. -/
theorem hidden_lost :
    let name := [97, QUOTE, 98]
    let q := (hideRequest (ascii "a\\\"b")).handle {} true
    let r := (hideRequest (ascii "eth0")).handle {} false
    (q.2.status = 200 ∧ q.1 = hidesOne name ∧
      (loadHiddenEntities (hiddenText [] [(List.replicate 64 97, name)])).hiddenIfaces ≠
        q.1.hiddenIfaces) ∧
    r.2.status = 500 ∧ r.1 = hidesOne (ascii "eth0") ∧ r.1 ≠ {} := by
  decide +kernel

end TrafficMonitor.Hidden
