import TrafficMonitor.Basic.Inet
import TrafficMonitor.Basic.Scoped
import TrafficMonitor.Protocol

/-!
# The client registry

`ClientRegistry` maps the addresses of the connected clients to their ids, one map for
all sessions, and records the external address that each client announced. This module
has its operations, `isLanIP`, and the announcements that the operations amount to: the
map is the flat table of the history (`Scoped.flat`).
-/

namespace TrafficMonitor

open Bytes Inet

abbrev ClientId := Bytes

/-! ## Addresses -/

/-- 127.0.0.0/8, 10.0.0.0/8, 172.16.0.0/12, 192.168.0.0/16 -/
def isLan4 : Bytes → Bool
  | a :: b :: _ => a = 127 || a = 10 || (a = 172 && b &&& 0xF0 = 0x10) || (a = 192 && b = 168)
  | _ => false

/-- ::1, fc00::/7, fe80::/10 -/
def isLan6 (a : Bytes) : Bool :=
  a = List.replicate 15 0 ++ [1] || match a with
    | b :: c :: _ => b &&& 0xFE = 0xFC || (b = 0xFE && c &&& 0xC0 = 0x80)
    | _ => false

def isLanIP (ip : Bytes) : Bool :=
  match inet_pton4 (cStr ip) with
  | some a => isLan4 a
  | none => match inet_pton6 (cStr ip) with
    | some a => isLan6 a
    | none => false

/-- The check of an announced external address. -/
def validExtIp (extIp : Bytes) : Bool :=
  extIp = kExtIPNull || (inet_pton4 (cStr extIp)).isSome || (inet_pton6 (cStr extIp)).isSome

/-- The addresses of a line come without trailing blanks and carriage returns. -/
def trimAddress (s : Bytes) : Bytes := trimRight (fun c => c = CR || c = SP) s

/-! ## Operations -/

structure ClientRegistry where
  ipToClientId : Bytes → Option ClientId := fun _ => none
  clientToExternalIp : ClientId → Option Bytes := fun _ => none

namespace ClientRegistry

/-- `ipToClientId[ip] = clientId`, unless the address is empty. -/
def setIp (reg : ClientRegistry) (ip : Bytes) (clientId : ClientId) : ClientRegistry :=
  if ip = [] then reg
  else { reg with ipToClientId := Function.update reg.ipToClientId ip (some clientId) }

/-- Erase all entries whose value is the client's id. -/
def eraseIps (reg : ClientRegistry) (clientId : ClientId) : ClientRegistry :=
  { reg with ipToClientId := Scoped.withdraw clientId reg.ipToClientId }

def removeClient (reg : ClientRegistry) (clientId : ClientId) : ClientRegistry :=
  if clientId = [] then reg
  else
    { reg.eraseIps clientId with
      clientToExternalIp := Function.update reg.clientToExternalIp clientId none }

/-- An accepted X-line: the client's entries go, its connection address comes back, and
the external address is recorded. -/
def announceExternal (reg : ClientRegistry) (clientId : ClientId) (clientIp extIp : Bytes) :
    ClientRegistry :=
  { (reg.eraseIps clientId).setIp clientIp clientId with
    clientToExternalIp := Function.update reg.clientToExternalIp clientId (some extIp) }

variable {reg : ClientRegistry} {id : ClientId} {ip : Bytes}

theorem ipToClientId_setIp (a : Bytes) :
    (reg.setIp ip id).ipToClientId a =
      if ip ≠ [] ∧ a = ip then some id else reg.ipToClientId a := by
  unfold setIp
  by_cases h : ip = []
  · simp [h]
  · simp [h, Function.update_apply]

theorem ipToClientId_eraseIps (a : Bytes) : (reg.eraseIps id).ipToClientId a =
    if reg.ipToClientId a = some id then none else reg.ipToClientId a := by
  simp only [eraseIps, Scoped.withdraw]
  cases reg.ipToClientId a with
  | none => rfl
  | some d => by_cases h : d = id <;> simp [Option.filter, h]

theorem removeClient_of_ne (h : id ≠ []) :
    reg.removeClient id =
      { reg.eraseIps id with clientToExternalIp := Function.update reg.clientToExternalIp id none } := by
  simp [removeClient, h]

/-! ## The history behind the registry -/

abbrev History := Scoped.History ClientId Bytes Bytes

/-- The site that an announced external address names; `null` names none. -/
def siteOfExt (ext : Option Bytes) : Option Bytes := ext.filter (· ≠ kExtIPNull)

/-- An address taken up, unless it is empty. -/
def holds (clientId : ClientId) (ip : Bytes) : History :=
  if ip = [] then [] else [.holds clientId ip]

/-- The registry holds the flat table of the history, and the site of every client. -/
structure Reflects (reg : ClientRegistry) (h : History) : Prop where
  flat : reg.ipToClientId = Scoped.flat h
  site : ∀ d, (Scoped.after h).siteOf d = siteOfExt (reg.clientToExternalIp d)

theorem Reflects.init : Reflects {} [] := ⟨rfl, fun _ => rfl⟩

variable {h : History}

theorem Reflects.setIp (hr : Reflects reg h) : Reflects (reg.setIp ip id) (h ++ holds id ip) := by
  by_cases hip : ip = []
  · simpa [ClientRegistry.setIp, holds, hip] using hr
  · refine ⟨?_, fun d => ?_⟩
    · simp [ClientRegistry.setIp, holds, hip, Scoped.flatApply, hr.flat]
    · simpa [ClientRegistry.setIp, holds, hip, Scoped.Registry.apply] using hr.site d

theorem Reflects.joins (hr : Reflects reg h) (ext : Option Bytes) :
    Reflects { reg.eraseIps id with
        clientToExternalIp := Function.update reg.clientToExternalIp id ext }
      (h ++ [.joins id (siteOfExt ext)]) := by
  refine ⟨?_, fun d => ?_⟩
  · simp [eraseIps, Scoped.flatApply, hr.flat]
  · by_cases hd : d = id
    · simp [hd, Scoped.Registry.apply]
    · simpa [hd, Scoped.Registry.apply] using hr.site d

theorem Reflects.removeClient (hr : Reflects reg h) (hid : id ≠ []) :
    Reflects (reg.removeClient id) (h ++ [.joins id none]) := by
  rw [removeClient_of_ne hid]
  exact hr.joins none

theorem Reflects.announceExternal (hr : Reflects reg h) (clientIp extIp : Bytes) :
    Reflects (reg.announceExternal id clientIp extIp)
      (h ++ [.joins id (siteOfExt (some extIp))] ++ holds id clientIp) := by
  have he : reg.announceExternal id clientIp extIp =
      ({ reg.eraseIps id with
        clientToExternalIp := Function.update reg.clientToExternalIp id (some extIp) } :
        ClientRegistry).setIp clientIp id := by
    unfold ClientRegistry.announceExternal ClientRegistry.setIp
    split <;> rfl
  rw [he]
  exact (hr.joins (some extIp)).setIp

end ClientRegistry

end TrafficMonitor
