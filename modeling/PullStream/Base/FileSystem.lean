import PullStream.Base.Descriptors
import Mathlib.Logic.Function.Basic
/-!
# Files

A process sees what is in the file at each path, and has descriptors that stand for a file and a place in it
(`State`). `write` puts bytes over those that are at that place and leaves the rest of the file: it makes a file longer,
but never shorter.

* `text_write`: what is in the files after a `write`;
* `read_openAt`: what is read from a file that has just been opened;
* `splice_zero`: what is written at the beginning is followed by what is left of the old text.
-/

namespace FileSystem

open Descriptors Function

variable {P B : Type*}

/-- A file that is open, and where the next bytes are read or written. -/
structure Handle (P : Type*) where
  path : P
  offset : Nat

structure State (P B : Type*) where
  text : P → Option (List B)
  table : Table (Handle P)

/-- `new` is written over `old` from the offset `n` on, and a gap before it is filled with `z`. -/
def splice (z : B) (old : List B) (n : Nat) (new : List B) : List B :=
  (old ++ List.replicate (n - old.length) z).take n ++ new ++ old.drop (n + new.length)

theorem splice_zero (z : B) (old new : List B) : splice z old 0 new = new ++ old.drop new.length := by
  rw [splice, List.take_zero, List.nil_append, Nat.zero_add]

namespace State

/-- What is in a file, nothing if there is no such file. -/
def content (w : State P B) (p : P) : List B := (w.text p).getD []

/-- The file is opened, with its beginning as the place. -/
def openAt (w : State P B) (p : P) : State P B := { w with table := w.table.alloc ⟨p, 0⟩ }

/-- The place is moved on by `n`. -/
def advance (w : State P B) (fd : Nat) (h : Handle P) (n : Nat) : State P B :=
  { w with table := w.table.set fd (some { h with offset := h.offset + n }) }

/-- `n` bytes are read, or as many as there are. -/
def read (w : State P B) (fd n : Nat) : Option (List B × State P B) :=
  (w.table.get fd).map fun h =>
    let bytes := ((w.content h.path).drop h.offset).take n
    (bytes, w.advance fd h bytes.length)

section

variable [DecidableEq P]

/-- The file is made if there is none. -/
def create (w : State P B) (p : P) : State P B := { w with text := update w.text p (some (w.content p)) }

/-- The bytes are written. -/
def write (z : B) (w : State P B) (fd : Nat) (bytes : List B) : Option (State P B) :=
  (w.table.get fd).map fun h =>
    let text := update w.text h.path (some (splice z (w.content h.path) h.offset bytes))
    ({ w with text := text } : State P B).advance fd h bytes.length

end

variable {w : State P B} {p : P}

theorem get_openAt : (w.openAt p).table.get w.table.lowest = some ⟨p, 0⟩ := by
  rw [openAt, Table.get_alloc, if_pos rfl]

/-- **What is read from a file that has just been opened** is at its beginning. -/
theorem read_openAt (n : Nat) : ∃ u, (w.openAt p).read w.table.lowest n = some ((w.content p).take n, u) := by
  rw [read, get_openAt]
  exact ⟨_, rfl⟩

variable [DecidableEq P]

@[simp] theorem content_create (q : P) : (w.create p).content q = w.content q := by
  show (update w.text p (some (w.content p)) q).getD [] = w.content q
  rw [update_apply]
  split_ifs with hq
  · rw [hq]
    rfl
  · rfl

/-- **What is written to a file that has just been opened** stands at its beginning. -/
theorem write_openAt (z : B) (w : State P B) (p : P) (bytes : List B) :
    ∃ u, (w.openAt p).write z w.table.lowest bytes = some u ∧
      u.text = update w.text p (some (bytes ++ (w.content p).drop bytes.length)) := by
  rw [write, get_openAt]
  refine ⟨_, rfl, ?_⟩
  show update w.text p (some (splice z (w.content p) 0 bytes)) = _
  rw [splice_zero]

end State

end FileSystem
