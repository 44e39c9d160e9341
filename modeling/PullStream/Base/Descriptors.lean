import Mathlib.Data.List.Basic
/-!
# Tables of descriptors

A process refers to what it has open by small numbers. `Table α` gives what stands behind each number, if
anything, and `alloc` takes the lowest number that is free. Two tables are compared number by number, through
`get`: numbers at the end of a table that are free make no difference.
-/

namespace Descriptors

variable {α : Type*} {a : α} {n m : Nat}

/-- What is open, by number. -/
abbrev Table (α : Type*) := List (Option α)

namespace Table

/-- What a number refers to. -/
def get : Table α → Nat → Option α
  | [], _ => none
  | o :: _, 0 => o
  | _ :: t, n + 1 => get t n

/-- The lowest number that is free. -/
def lowest : Table α → Nat
  | [] | none :: _ => 0
  | some _ :: t => lowest t + 1

/-- `a` is opened at the lowest free number. -/
def alloc (a : α) : Table α → Table α
  | [] => [some a]
  | none :: t => some a :: t
  | some b :: t => some b :: alloc a t

/-- The number is given back, if it was in use. -/
def close : Table α → Nat → Table α
  | [], _ => []
  | _ :: t, 0 => none :: t
  | o :: t, n + 1 => o :: close t n

theorem get_close (t : Table α) (n m : Nat) : (t.close n).get m = if m = n then none else t.get m := by
  induction t generalizing n m with
  | nil => simp [close, get]
  | cons o t ih => cases n <;> cases m <;> simp [close, get, ih]

theorem get_alloc (t : Table α) (a : α) (m : Nat) :
    (t.alloc a).get m = if m = t.lowest then some a else t.get m := by
  induction t generalizing m with
  | nil => cases m <;> simp [alloc, get, lowest]
  | cons o t ih => cases o <;> cases m <;> simp [alloc, get, lowest, ih]

theorem get_set {t : Table α} {b : α} (h : t.get n = some b) (a : α) (m : Nat) :
    get (t.set n (some a)) m = if m = n then some a else t.get m := by
  induction t generalizing n m with
  | nil => cases h
  | cons o t ih =>
    cases n with
    | zero => cases m <;> simp [get]
    | succ n =>
      cases m with
      | zero => simp [get]
      | succ m => simpa [get] using ih h m

@[simp] theorem get_lowest (t : Table α) : t.get t.lowest = none := by
  induction t with
  | nil => rfl
  | cons o t ih =>
    cases o with
    | none => rfl
    | some b => exact ih

theorem lt_length {t : Table α} (h : t.get n = some a) : n < t.length := by
  induction t generalizing n with
  | nil => cases h
  | cons o t ih =>
    cases n with
    | zero => exact Nat.zero_lt_succ _
    | succ n => exact Nat.succ_lt_succ (ih h)

theorem lowest_le {t : Table α} (h : t.get n = none) : t.lowest ≤ n := by
  induction t generalizing n with
  | nil => exact Nat.zero_le n
  | cons o t ih =>
    cases o with
    | none => exact Nat.zero_le n
    | some b =>
      cases n with
      | zero => cases h
      | succ n => exact Nat.succ_le_succ (ih h)

theorem lowest_congr {t u : Table α} (h : t.get = u.get) : t.lowest = u.lowest := by
  apply Nat.le_antisymm
  · apply lowest_le
    rw [h, get_lowest]
  · apply lowest_le
    rw [← h, get_lowest]

theorem close_congr {t u : Table α} (h : t.get = u.get) : (t.close n).get = (u.close n).get := by
  funext m
  rw [get_close, get_close, h]

theorem close_of_free {t : Table α} (h : t.get n = none) : (t.close n).get = t.get := by
  funext m
  rw [get_close]
  split_ifs with hm
  · rw [hm, h]
  · rfl

/-- **What is opened and given back leaves no trace.** -/
theorem close_alloc (t : Table α) : ((t.alloc a).close t.lowest).get = t.get := by
  funext m
  rw [get_close, get_alloc]
  split_ifs with hm
  · rw [hm, get_lowest]
  · rfl

end Table

end Descriptors
