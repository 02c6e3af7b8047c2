import Mathlib.Logic.Function.Basic
import Mathlib.Data.Option.Basic

/-!
# Named files

A file system is a map from names to files. Renaming replaces what stands under the new
name. The `try` forms are operations of a program: `ok` is what the system decides, and an
operation that fails, or has no file to act on, changes nothing.
-/

namespace TrafficMonitor.Files

variable {N F : Type} [DecidableEq N]

abbrev System (N F : Type) := N → Option F

def write (n : N) (f : F) (fs : System N F) : System N F := Function.update fs n (some f)

def remove (n : N) (fs : System N F) : System N F := Function.update fs n none

def modify (g : F → F) (n : N) (fs : System N F) : System N F :=
  Function.update fs n ((fs n).map g)

def rename (src dst : N) (fs : System N F) : System N F :=
  match fs src with
  | none => fs
  | some f => write dst f (remove src fs)

def tryModify (ok : Bool) (g : F → F) (n : N) (fs : System N F) : System N F × Bool :=
  if ok && (fs n).isSome then (modify g n fs, true) else (fs, false)

def tryRename (ok : Bool) (src dst : N) (fs : System N F) : System N F × Bool :=
  if ok && (fs src).isSome then (rename src dst fs, true) else (fs, false)

section Lemmas

variable {n m src dst : N} {f : F} {g : F → F} {fs : System N F}

@[simp] theorem write_same : write n f fs n = some f := by simp [write]

@[simp] theorem write_ne (h : m ≠ n) : write n f fs m = fs m := by simp [write, h]

@[simp] theorem remove_same : remove n fs n = none := by simp [remove]

@[simp] theorem remove_ne (h : m ≠ n) : remove n fs m = fs m := by simp [remove, h]

@[simp] theorem modify_same : modify g n fs n = (fs n).map g := by simp [modify]

@[simp] theorem modify_ne (h : m ≠ n) : modify g n fs m = fs m := by simp [modify, h]

theorem rename_of_some (h : fs src = some f) :
    rename src dst fs = write dst f (remove src fs) := by simp [rename, h]

theorem tryModify_of_some (h : fs n = some f) (ok : Bool) :
    tryModify ok g n fs = if ok then (modify g n fs, true) else (fs, false) := by
  cases ok <;> simp [tryModify, h]

theorem tryRename_of_some (h : fs src = some f) (ok : Bool) : tryRename ok src dst fs =
    if ok then (write dst f (remove src fs), true) else (fs, false) := by
  cases ok <;> simp [tryRename, h, rename_of_some]

end Lemmas

end TrafficMonitor.Files
