import Mathlib.Logic.Function.Basic
import Mathlib.Data.List.Basic

set_option autoImplicit false

/-! # Files behind an appending stream

A stream that is open on a file keeps what it is given until it passes it on, and what it passes on
ends up behind what is in the file. `delivered` is the file with what is still on its way to it: a
write adds to it on one file and nothing else changes it, however much the stream passes on and
whenever it does. -/

universe u v

/-- The files by their names, and the stream: the name of the file that it is open on and what it
    has not passed on. -/
structure Appending (ν : Type u) (α : Type v) where
  files : ν → Option (List α)
  stream : Option (ν × List α)

namespace Appending

variable {ν : Type u} {α : Type v}

/-- No stream is open. -/
def new (files : ν → Option (List α)) : Appending ν α := ⟨files, none⟩

/-- The file that is open. -/
def file (s : Appending ν α) : Option ν := s.stream.map (·.1)

def buffered (s : Appending ν α) : List α := (s.stream.map (·.2)).getD []

variable [DecidableEq ν]

/-- The first `n` elements are passed on. -/
def pass (s : Appending ν α) (n : Nat) : Appending ν α :=
  match s.stream with
  | none => s
  | some (name, buffered) =>
      { files := Function.update s.files name
          (some ((s.files name).getD [] ++ buffered.take n))
        stream := some (name, buffered.drop n) }

/-- Everything is passed on. -/
def flush (s : Appending ν α) : Appending ν α := s.pass s.buffered.length

/-- The stream takes `data` and passes on as much as it likes. A closed stream takes nothing. -/
def write (s : Appending ν α) (data : List α) (n : Nat) : Appending ν α :=
  { s with stream := s.stream.map fun (name, buffered) => (name, buffered ++ data) }.pass n

def close (s : Appending ν α) : Appending ν α := { s.flush with stream := none }

/-- The stream is opened; a file that is not there is made. -/
def openFile (s : Appending ν α) (name : ν) : Appending ν α where
  files := Function.update s.files name (some ((s.files name).getD []))
  stream := some (name, [])

/-- The file with what is on its way to it. -/
def delivered (s : Appending ν α) (name : ν) : List α :=
  (s.files name).getD [] ++ if s.file = some name then s.buffered else []

/-! ## Which file is open -/

@[simp] theorem file_pass (s : Appending ν α) (n : Nat) : (s.pass n).file = s.file := by
  unfold pass
  split
  · rfl
  · next h => simp [file, h]

@[simp] theorem file_flush (s : Appending ν α) : s.flush.file = s.file := s.file_pass _

@[simp] theorem file_write (s : Appending ν α) (data : List α) (n : Nat) :
    (s.write data n).file = s.file := by
  rw [write, file_pass]
  simp [file, Function.comp_def]

@[simp] theorem file_close (s : Appending ν α) : s.close.file = none := rfl

@[simp] theorem file_openFile (s : Appending ν α) (name : ν) :
    (s.openFile name).file = some name := rfl

/-! ## Files do not go away -/

theorem isSome_pass {s : Appending ν α} {name : ν} (n : Nat) (h : (s.files name).isSome) :
    ((s.pass n).files name).isSome := by
  unfold pass
  split
  · exact h
  · next opened _ _ =>
      by_cases heq : name = opened
      · simp [heq]
      · simpa [Function.update_of_ne heq] using h

theorem isSome_write {s : Appending ν α} {name : ν} (data : List α) (n : Nat)
    (h : (s.files name).isSome) : ((s.write data n).files name).isSome := isSome_pass n h

theorem isSome_openFile (s : Appending ν α) (name : ν) :
    ((s.openFile name).files name).isSome := by
  simp [openFile]

/-! ## What is delivered -/

@[simp] theorem delivered_new (files : ν → Option (List α)) (name : ν) :
    (new files).delivered name = (files name).getD [] := by
  simp [delivered, new, file]

@[simp] theorem delivered_pass (s : Appending ν α) (n : Nat) (name : ν) :
    (s.pass n).delivered name = s.delivered name := by
  unfold pass
  split
  · rfl
  · next opened buffered hopened =>
      by_cases heq : opened = name
      · simp [delivered, file, Appending.buffered, hopened, heq]
      · simp [delivered, file, hopened, heq, Function.update_of_ne (Ne.symm heq)]

@[simp] theorem delivered_flush (s : Appending ν α) (name : ν) :
    s.flush.delivered name = s.delivered name := s.delivered_pass _ name

/-- The one change. -/
theorem delivered_write (s : Appending ν α) (data : List α) (n : Nat) (name : ν) :
    (s.write data n).delivered name =
      s.delivered name ++ if s.file = some name then data else [] := by
  rw [write, delivered_pass]
  cases hstream : s.stream with
  | none => simp [delivered, file, hstream]
  | some opened =>
      by_cases heq : opened.1 = name <;> simp [delivered, file, buffered, hstream, heq]

/-- With nothing on its way it is all in the file. -/
theorem delivered_of_flushed {s : Appending ν α} (h : s.buffered = []) (name : ν) :
    s.delivered name = (s.files name).getD [] := by
  simp [delivered, h]

@[simp] theorem buffered_flush (s : Appending ν α) : s.flush.buffered = [] := by
  unfold flush pass
  split
  · next h => simp [buffered, h]
  · next h => simp [buffered, h]

@[simp] theorem delivered_close (s : Appending ν α) (name : ν) :
    s.close.delivered name = s.delivered name := by
  rw [← s.delivered_flush name, delivered_of_flushed s.buffered_flush]
  exact delivered_of_flushed rfl name

@[simp] theorem buffered_close (s : Appending ν α) : s.close.buffered = [] := rfl

@[simp] theorem delivered_openFile {s : Appending ν α} (h : s.buffered = []) (opened name : ν) :
    (s.openFile opened).delivered name = s.delivered name := by
  rw [delivered_of_flushed h, delivered_of_flushed rfl]
  by_cases heq : name = opened
  · simp [openFile, heq]
  · simp [openFile, Function.update_of_ne heq]

end Appending
