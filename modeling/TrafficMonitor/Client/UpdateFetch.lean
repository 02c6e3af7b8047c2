import TrafficMonitor.Basic.HttpHead
import TrafficMonitor.Basic.Members
import TrafficMonitor.Client.UpdateCycle

/-!
# The requests of an update cycle

The small HTTP client of `updater.cpp`: `httpsGet` reads until the connection is closed,
`httpsGetToFile` reads the head one byte at a time and then the body into the file. It asks the
server to close the connection behind its response, and does not look at the length that the
response announces.

Proved here, for a connection that carries a response and is then closed, however its bytes are
cut into records:

* `httpsGet_carries`: the status and the body;
* `httpsGetToFile_carries`: the file holds the body;
* `jsonStr_object`, `jsonInt_object`, `jsonBool_first`: the members of a flat object.
-/

namespace TrafficMonitor.UpdateFetch

open Bytes Files Tls HttpHead
open Updater (Download strtoll streamBody httpsGetToFile jsonBool jsonInt jsonStr jsonStrBody
  kAbsoluteMaxBytes Path Dir)

/-! ## The code -/

def checkPath (platform version pubkeyHex : Bytes) : Bytes :=
  ascii "/api/update/check?platform=" ++ platform ++ ascii "&version=" ++ version ++
    ascii "&pubkey=" ++ pubkeyHex

def dlPath (platform pubkeyHex : Bytes) : Bytes :=
  ascii "/api/update/download?platform=" ++ platform ++ ascii "&pubkey=" ++ pubkeyHex

def sigDlPath (platform pubkeyHex : Bytes) : Bytes :=
  ascii "/api/update/download_sig?platform=" ++ platform ++ ascii "&pubkey=" ++ pubkeyHex

/-- `strtol` of 64 bits, cast to an `int`. -/
def parseHttpStatus (response : Bytes) : Int :=
  if response.length < 12 || response.take 5 ≠ ascii "HTTP/" then 0
  else match Lines.cut SP response with
    | none => 0
    | some (_, rest) => ((strtoll rest).getD 0).bmod (2 ^ 32)

def parseHttpBody (response : Bytes) : Bytes := (findAfter blankLine response).getD []

/-- The loop of `sslRead`; a round that goes on has read a byte, so that `limit` rounds are
enough. -/
def readUpTo (limit : Nat) : Nat → Bytes → List Event → Bytes
  | 0, out, _ => out
  | n + 1, out, es =>
    if out.length < limit then match sslRead 8192 es with
      | (.data s, es) => readUpTo limit n (out ++ s) es
      | _ => out
    else out

def kReadLimit : Nat := 2 * 1024 * 1024

/-- `httpsGet`, once the request is written. -/
def httpsGet (es : List Event) : Int × Bytes :=
  let resp := readUpTo kReadLimit kReadLimit [] es
  (parseHttpStatus resp, parseHttpBody resp)

def kMaxHeaders : Nat := 16384

/-- The loop over the head, which also ends where a read fails. -/
def readHeaders : Nat → Bytes → List Event → Bytes × List Event
  | 0, headers, es => (headers, es)
  | n + 1, headers, es => match sslRead 1 es with
    | (.data s, es) =>
      if blankLine.isSuffixOf (headers ++ s) then (headers ++ s, es)
      else readHeaders n (headers ++ s) es
    | (_, es) => (headers, es)

/-- What the loop over the body would read in `n` rounds. -/
def bodyReads : Nat → List Event → List Bytes
  | 0, _ => []
  | n + 1, es => match sslRead 65536 es with
    | (.data s, es) => s :: bodyReads n es
    | _ => []

/-- `httpsGetToFile` on this connection, once the request is written: `d` has the status of the
head, and the reads that follow it. -/
structure Fetch (es : List Event) (d : Download) : Prop where
  status : d.status = parseHttpStatus (readHeaders kMaxHeaders [] es).1
  reads : d.reads.map Prod.fst = bodyReads (symbols es).length (readHeaders kMaxHeaders [] es).2

/-- The disk takes all of it. -/
structure Stores (d : Download) : Prop where
  fopen : d.fopen = true
  fwrite : ∀ r ∈ d.reads, r.2 = r.1.length
  fclose : (d.reads.map Prod.fst).flatten.length ≤ d.flushed

/-! ## Connections that carry a response -/

/-- The status line, headers, and a body up to the end of the connection. -/
def CarriesReply (es : List Event) (status : Nat) (body : Bytes) : Prop :=
  ∃ (h : Head) (reason : Bytes) (rest : List Symbol), h.Clean ∧
    h.first = ascii "HTTP/1.1 " ++ (decimal status ++ SP :: reason) ∧
    h.text.length ≤ kMaxHeaders ∧ symbols es = ofBytes (h.text ++ body) ++ rest ∧ Ends rest

theorem digit_range {c : UInt8} (h : isDigit c = true) : 48 ≤ c.toNat ∧ c.toNat ≤ 57 := by
  simp only [isDigit, Bool.and_eq_true, decide_eq_true_eq] at h
  exact h

/-- A number is read up to the first byte that is no digit. -/
theorem strtoll_decimal {n : Nat} (hn : n < 2 ^ 63) {c : UInt8} (hc : isDigit c = false)
    (t : Bytes) : strtoll (decimal n ++ c :: t) = some (n : Int) := by
  obtain ⟨d, ds, hds⟩ := List.exists_cons_of_ne_nil (decimal_ne_nil n)
  have hd := digit_range (isDigit_of_mem_decimal (hds ▸ List.mem_cons_self))
  have hspace : isSpace d = false := by
    rw [Bool.eq_false_iff]
    intro h
    rcases (Bool.or_eq_true _ _).mp h with h | h
    · exact absurd (of_decide_eq_true h ▸ hd.1) (by decide)
    · exact absurd (hd.1.trans (of_decide_eq_true ((Bool.and_eq_true _ _).mp h).2)) (by decide)
  have h45 : d ≠ 45 := fun e => absurd (e ▸ hd.1) (by decide)
  have h43 : d ≠ 43 := fun e => absurd (e ▸ hd.1) (by decide)
  have htake : (d :: (ds ++ c :: t)).takeWhile isDigit = decimal n := by
    rw [← List.cons_append, ← hds, List.takeWhile_append_of_pos fun _ => isDigit_of_mem_decimal]
    simp [hc]
  have hne := decimal_ne_nil n
  have hmin : min (n : Int) (2 ^ 63 - 1) = n := by omega
  rw [hds, List.cons_append, strtoll]
  simp only [List.dropWhile_cons, hspace, Bool.false_eq_true, if_false, List.head?_cons,
    Option.some.injEq, h45, h43, or_self, htake, hne, digitsValue_decimal, hmin]

theorem parseHttpStatus_head {h : Head} {status : Nat} {reason : Bytes} (hs : status < 2 ^ 31)
    (hf : h.first = ascii "HTTP/1.1 " ++ (decimal status ++ SP :: reason)) (t : Bytes) :
    parseHttpStatus (h.text ++ t) = status := by
  obtain ⟨u, hlen, hu⟩ : ∃ u : Bytes, 2 ≤ u.length ∧
      h.text ++ t = ascii "HTTP/1.1" ++ SP :: (decimal status ++ SP :: u) := by
    refine ⟨reason ++ CR :: LF :: (joinLines (h.headers.map Header.line) ++ (crlf ++ t)), ?_, ?_⟩
    · simp only [List.length_append, List.length_cons]
      omega
    · simp [Head.text, Head.lines, hf, ascii, SP]
  have hsp : SP ∉ ascii "HTTP/1.1" := by decide
  have hlong : ¬(ascii "HTTP/1.1" ++ SP :: (decimal status ++ SP :: u)).length < 12 := by
    have h₈ : (ascii "HTTP/1.1").length = 8 := rfl
    have := List.length_pos_iff.mpr (decimal_ne_nil status)
    simp only [List.length_append, List.length_cons, h₈]
    omega
  have htake : (ascii "HTTP/1.1" ++ SP :: (decimal status ++ SP :: u)).take 5 = ascii "HTTP/" := rfl
  rw [hu, parseHttpStatus, Lines.cut_append SP _ _ hsp, htake]
  simp only [hlong, decide_false, ne_eq, not_true_eq_false, Bool.or_self, Bool.false_eq_true,
    if_false, strtoll_decimal (show status < 2 ^ 63 by omega) (show isDigit SP = false by decide),
    Option.getD_some]
  exact Int.bmod_eq_of_le (by omega) (by omega)

/-- The first blank line of a response ends its head. -/
theorem findAfter_blankLine {ls : List Bytes} (hne : ls ≠ []) (hls : ∀ l ∈ ls, CR ∉ l ∧ l ≠ [])
    (t : Bytes) : findAfter blankLine (joinLines ls ++ crlf ++ t) = some t := by
  induction ls with
  | nil => exact absurd rfl hne
  | cons l ls ih =>
    obtain ⟨⟨hl, -⟩, hls⟩ := List.forall_mem_cons.mp hls
    have hskip (u : Bytes) : findAfter blankLine (l ++ u) = findAfter blankLine u :=
      findAfter_skip hl
    rw [joinLines_cons, List.append_assoc, List.append_assoc, hskip]
    cases ls with
    | nil => exact findAfter_append blankLine t (by simp [blankLine, crlf])
    | cons m ls =>
      obtain ⟨⟨hm, hmne⟩, -⟩ := List.forall_mem_cons.mp hls
      obtain ⟨c, m', rfl⟩ := List.exists_cons_of_ne_nil hmne
      have hc : CR ≠ c := fun e => hm (e ▸ List.mem_cons_self)
      -- the line end is not followed by another one
      have h₁ : stripPrefix blankLine
          (CR :: LF :: (joinLines ((c :: m') :: ls) ++ (crlf ++ t))) = none := by
        rw [stripPrefix_eq_none]
        rintro ⟨u, hu⟩
        simp [blankLine, crlf] at hu
        exact hc hu.1
      have h₂ : stripPrefix blankLine (LF :: (joinLines ((c :: m') :: ls) ++ (crlf ++ t))) = none :=
        stripPrefix_head (by decide) _ _
      rw [List.cons_append, List.cons_append, findAfter_cons h₁, findAfter_cons h₂,
        ← List.append_assoc]
      exact ih (by simp) hls

theorem parseHttpBody_head {h : Head} (hc : h.Clean) (t : Bytes) :
    parseHttpBody (h.text ++ t) = t := by
  rw [parseHttpBody, Head.text, findAfter_blankLine (by simp [Head.lines])
    (fun l hl => ⟨hc.2 l hl, hc.lines_ne l hl⟩), Option.getD_some]

/-! ## Reading to the end -/

theorem readUpTo_bytes {limit n : Nat} {t out : Bytes} (hn : t.length ≤ n)
    (hl : out.length + t.length ≤ limit) {es : List Event} {rest : List Symbol} (hr : Ends rest)
    (he : symbols es = ofBytes t ++ rest) : readUpTo limit n out es = out ++ t := by
  induction n generalizing t out es with
  | zero =>
    obtain rfl := List.length_eq_zero_iff.mp (Nat.le_zero.mp hn)
    simp [readUpTo]
  | succ n ih =>
    rw [readUpTo]
    by_cases ht : t = []
    · subst ht
      have hends : Ends (symbols es) := by rw [he]; exact hr
      rcases hread : sslRead 8192 es with ⟨r, es'⟩
      have := sslRead_ends hends 8192
      rw [hread] at this
      rcases this with rfl | rfl <;> simp
    · obtain ⟨a, b, es', ha, rfl, hread, hes⟩ := sslRead_bytes (show 0 < 8192 by decide) ht hr he
      have := List.length_pos_iff.mpr ha
      simp only [List.length_append] at hn hl
      have hlt : out.length < limit := by omega
      rw [if_pos hlt, hread]
      rw [← List.append_assoc]
      exact ih (by omega) (by simp only [List.length_append]; omega) hes

theorem bodyReads_bytes {n : Nat} {t : Bytes} (hn : t.length ≤ n) {es : List Event}
    {rest : List Symbol} (hr : Ends rest) (he : symbols es = ofBytes t ++ rest) :
    (bodyReads n es).flatten = t := by
  induction n generalizing t es with
  | zero =>
    obtain rfl := List.length_eq_zero_iff.mp (Nat.le_zero.mp hn)
    rfl
  | succ n ih =>
    rw [bodyReads]
    by_cases ht : t = []
    · subst ht
      have hends : Ends (symbols es) := by rw [he]; exact hr
      rcases hread : sslRead 65536 es with ⟨r, es'⟩
      have := sslRead_ends hends 65536
      rw [hread] at this
      rcases this with rfl | rfl <;> rfl
    · obtain ⟨a, b, es', ha, rfl, hread, hes⟩ := sslRead_bytes (show 0 < 65536 by decide) ht hr he
      have := List.length_pos_iff.mpr ha
      simp only [List.length_append] at hn
      rw [hread]
      simp only [List.flatten_cons]
      rw [ih (by omega) hes]

/-- The head is read as `readHead` reads it, if that does not fail. -/
theorem readHeaders_of_readHead {n : Nat} {acc s : Bytes} {es es' : List Event}
    (h : readHead n acc es = (some s, es')) : readHeaders n acc es = (s, es') := by
  induction n generalizing acc es with
  | zero => cases h; rfl
  | succ n ih =>
    rcases hr : sslRead 1 es with ⟨r, es₁⟩
    cases r with
    | data s₁ =>
      simp only [readHead, hr] at h
      simp only [readHeaders, hr]
      split_ifs at h ⊢
      · cases h
        rfl
      · exact ih h
    | timedOut | closed =>
      simp only [readHead, hr] at h
      cases h

/-- **A response is read** as what it carries. -/
theorem httpsGet_carries {es : List Event} {status : Nat} {body : Bytes} (hs : status < 2 ^ 31)
    (h : CarriesReply es status body) (hb : body.length ≤ kReadLimit - kMaxHeaders) :
    httpsGet es = ((status : Int), body) := by
  obtain ⟨g, reason, rest, hc, hf, hlen, he, hr⟩ := h
  have hk : kMaxHeaders ≤ kReadLimit := by decide
  have hall : (g.text ++ body).length ≤ kReadLimit := by
    simp only [List.length_append]
    omega
  have hread : readUpTo kReadLimit kReadLimit [] es = g.text ++ body :=
    readUpTo_bytes hall (by simpa using hall) hr he
  rw [httpsGet]
  simp only [hread, parseHttpStatus_head hs hf, parseHttpBody_head hc]

/-- Writes that succeed, of a body that is not too long and that is all of what is expected. -/
theorem streamBody_all {expectedSize : Int} {done : Bytes} {reads : List (Bytes × Nat)}
    (hw : ∀ r ∈ reads, r.2 = r.1.length)
    (hcap : (done ++ (reads.map Prod.fst).flatten).length ≤ kAbsoluteMaxBytes)
    (hsize : 0 < expectedSize →
      ((done ++ (reads.map Prod.fst).flatten).length : Int) ≤ expectedSize) :
    streamBody expectedSize done reads = (done ++ (reads.map Prod.fst).flatten, 200) := by
  induction reads generalizing done with
  | nil => simp [streamBody]
  | cons r reads ih =>
    obtain ⟨buf, taken⟩ := r
    obtain ⟨htaken, hw⟩ := List.forall_mem_cons.mp hw
    simp only [List.map_cons, List.flatten_cons] at hcap hsize ⊢
    simp only at htaken
    rw [← List.append_assoc] at hcap hsize ⊢
    have hlen : (done ++ buf).length ≤ (done ++ buf ++ (reads.map Prod.fst).flatten).length := by
      simp only [List.length_append]
      omega
    have hfull : ¬taken < buf.length := by omega
    have hcap' : ¬kAbsoluteMaxBytes < (done ++ buf).length := by omega
    rw [streamBody]
    simp only [hfull, hcap', if_false]
    split
    · -- nothing is left that could be read
      rename_i hstop
      simp only [Bool.and_eq_true, decide_eq_true_eq] at hstop
      have := hsize hstop.1
      have hrest : (reads.map Prod.fst).flatten.length = 0 := by
        simp only [List.length_append] at this hstop
        omega
      rw [List.length_eq_zero_iff.mp hrest, List.append_nil]
    · exact ih hw hcap hsize

/-- **A body is stored** as it was sent. -/
theorem httpsGetToFile_carries {es : List Event} {body : Bytes} (h : CarriesReply es 200 body)
    {d : Download} (hd : Fetch es d) (hst : Stores d) (hcap : body.length ≤ kAbsoluteMaxBytes)
    {expectedSize : Int} (hsize : 0 < expectedSize → (body.length : Int) ≤ expectedSize) (path : Path)
    (dir : Dir) : ∃ mode, httpsGetToFile d path expectedSize dir =
      (write path ⟨body, mode⟩ dir, 200) := by
  obtain ⟨g, reason, rest, hc, hf, hlen, he, hr⟩ := h
  rw [ofBytes_append, List.append_assoc] at he
  obtain ⟨es', hread, hes⟩ := readHead_text hc hlen he
  have hhead := readHeaders_of_readHead hread
  have hstatus : d.status = 200 := by
    have := @parseHttpStatus_head g 200 reason (by decide) hf []
    rw [List.append_nil] at this
    rw [hd.status, hhead, this]
    rfl
  have hbody : (d.reads.map Prod.fst).flatten = body := by
    rw [hd.reads, hhead]
    refine bodyReads_bytes ?_ hr hes
    rw [he, List.length_append, List.length_append, length_ofBytes, length_ofBytes]
    omega
  have hstream : streamBody expectedSize [] d.reads = (body, 200) := by
    rw [streamBody_all hst.fwrite] <;> rw [List.nil_append, hbody]
    · exact hcap
    · exact hsize
  have hflushed := hst.fclose
  rw [hbody] at hflushed
  refine ⟨((dir path).map Updater.File.mode).getD d.mode, ?_⟩
  rw [httpsGetToFile]
  simp only [hstatus, hst.fopen, hstream, ne_eq, not_true_eq_false, if_false, Bool.not_true,
    Bool.false_eq_true, List.take_of_length_le hflushed]

/-! ## Reading the response of a check -/

open Members

theorem jsonStrBody_plain {v : Bytes} (hq : QUOTE ∉ v) (hb : BACKSLASH ∉ v) (t : Bytes) :
    jsonStrBody (v ++ QUOTE :: t) = some v := by
  induction v with
  | nil => cases t <;> simp [jsonStrBody, QUOTE, BACKSLASH]
  | cons c v ih =>
    rw [List.mem_cons, not_or] at hq hb
    have ih := ih hq.2 hb.2
    obtain ⟨d, s, hs⟩ : ∃ d s, v ++ QUOTE :: t = d :: s := by
      cases v <;> exact ⟨_, _, rfl⟩
    rw [hs] at ih
    rw [List.cons_append, hs, jsonStrBody, if_neg (Ne.symm hb.1), if_neg (Ne.symm hq.1), ih]
    rfl

section Object

variable {m : Member} {front back : List Member} {name : Bytes} (hk : Key name)
  (hf : ∀ x ∈ m :: front, x.Plain ∧ x.name ≠ name)
include hk hf

theorem jsonStr_object {v : Bytes} (hq : QUOTE ∉ v) (hb : BACKSLASH ∉ v) (s : Bytes) :
    jsonStr (object m (front ++ ⟨name, .str v⟩ :: back) ++ s) name = v := by
  have h := @findAfter_object [QUOTE] m ⟨name, .str v⟩ front back hk hf s
    (v ++ QUOTE :: (tailText back ++ s)) (by simp [Value.text])
  have e : QUOTE :: (name ++ [QUOTE, COLON, QUOTE]) = label name [QUOTE] := by simp [label]
  rw [jsonStr, List.cons_append, e, h, Option.bind_some, jsonStrBody_plain hq hb]
  rfl

/-- A number is followed by a comma or the end of the object. -/
theorem jsonInt_object {n : Nat} (hn : n < 2 ^ 63) (s : Bytes) (dflt : Int) :
    jsonInt (object m (front ++ ⟨name, .raw (decimal n)⟩ :: back) ++ s) name dflt = n := by
  have h := @findAfter_object [] m ⟨name, .raw (decimal n)⟩ front back hk hf s
    (decimal n ++ (tailText back ++ s)) (by simp [Value.text])
  have e : QUOTE :: (name ++ [QUOTE, COLON]) = label name [] := by simp [label]
  obtain ⟨d, ds, hds⟩ := List.exists_cons_of_ne_nil (decimal_ne_nil n)
  have hd := digit_range (isDigit_of_mem_decimal (hds ▸ List.mem_cons_self))
  have hblank : (decide (d = SP) || decide (d = TAB)) = false := by
    have h₁ : d ≠ SP := fun e => absurd (e ▸ hd.1) (by decide)
    have h₂ : d ≠ TAB := fun e => absurd (e ▸ hd.1) (by decide)
    simp [h₁, h₂]
  obtain ⟨c, u, hu, hc⟩ : ∃ c u, tailText back ++ s = c :: u ∧ isDigit c = false := by
    cases back <;> exact ⟨_, _, rfl, by decide⟩
  have hdrop : (decimal n ++ c :: u).dropWhile (fun c => c = SP || c = TAB) = decimal n ++ c :: u := by
    rw [hds, List.cons_append, List.dropWhile_cons_of_neg (by simp [hblank])]
  rw [jsonInt, Updater.afterKey, List.cons_append, e, h, hu]
  simp only [hdrop, strtoll_decimal hn hc, Option.getD_some]

end Object

theorem jsonInt_none {m : Member} {ms : List Member} {name : Bytes} (hk : Key name)
    (hf : ∀ x ∈ m :: ms, x.Plain ∧ x.name ≠ name) {s : Bytes} (hs : QUOTE ∉ s) (dflt : Int) :
    jsonInt (object m ms ++ s) name dflt = dflt := by
  have h := @findAfter_object_none name [] hk m ms hf s hs
  have e : QUOTE :: (name ++ [QUOTE, COLON]) = label name [] := by simp [label]
  rw [jsonInt, Updater.afterKey, List.cons_append, e, h]

theorem jsonBool_first (name : Bytes) (b : Bool) (ms : List Member) (s : Bytes) (dflt : Bool) :
    jsonBool (object ⟨name, .raw (ascii (if b then "true" else "false"))⟩ ms ++ s) name dflt = b := by
  have h := @findAfter_object_first [] ⟨name, .raw (ascii (if b then "true" else "false"))⟩ ms s
    (ascii (if b then "true" else "false") ++ (tailText ms ++ s)) (by simp [Value.text])
  have e : QUOTE :: (name ++ [QUOTE, COLON]) = label name [] := by simp [label]
  rw [jsonBool, Updater.afterKey, List.cons_append, e, h]
  cases b <;> rfl

end TrafficMonitor.UpdateFetch
