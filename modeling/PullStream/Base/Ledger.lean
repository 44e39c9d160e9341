import Mathlib.Data.List.Nodup
import Mathlib.Logic.Function.Basic
/-!
# Values held by parties and by a book

A ledger has a book, the list of the values entered so far, and for every party the value it has claimed
and not entered yet. A value is *held* when it is in the book or claimed. A `Change` of a ledger claims a
value nobody holds, enters a claimed value (which may push another one out), drops a claim, or shortens
the book. Claims form a family that changes at one party at a time (`Family.of_update_some`).

* `Ledger.Apart`: no claimed value is held a second time, and `Ledger.Distinct`: no value is; every change
  keeps both (`Apart.change`, `Distinct.change`);
* `held_of_change`: a change makes no value held except the one it claims;
* `not_held_of_change`: so a value that nobody holds and that is not claimed stays so.
-/

namespace Family

open Function

variable {ι α : Type*} [DecidableEq ι] {f : ι → Option α} {i j : ι}

theorem of_update_some {a b : α} (h : update f i (some a) j = some b) :
    j = i ∧ b = a ∨ j ≠ i ∧ f j = some b := by
  by_cases hj : j = i
  · subst hj
    rw [update_self] at h
    exact .inl ⟨rfl, (Option.some.inj h).symm⟩
  · rw [update_of_ne hj] at h
    exact .inr ⟨hj, h⟩

theorem of_update_none {b : α} (h : update f i none j = some b) : j ≠ i ∧ f j = some b := by
  by_cases hj : j = i
  · subst hj
    rw [update_self] at h
    cases h
  · rw [update_of_ne hj] at h
    exact ⟨hj, h⟩

end Family

structure Ledger (ι α : Type*) where
  book : List α
  claim : ι → Option α

namespace Ledger

open Function Family

variable {ι α : Type*} [DecidableEq ι] {L L' : Ledger ι α} {x : Option α} {a : α} {i j : ι}

/-- The value is in the book or claimed. -/
def Held (L : Ledger ι α) (a : α) : Prop := a ∈ L.book ∨ ∃ i, L.claim i = some a

/-- No claimed value is in the book or claimed by another party. -/
structure Apart (L : Ledger ι α) : Prop where
  notBooked : ∀ i a, L.claim i = some a → a ∉ L.book
  apart : ∀ i j a, L.claim i = some a → L.claim j = some a → i = j

/-- No value is held twice. -/
structure Distinct (L : Ledger ι α) : Prop extends Apart L where
  nodup : L.book.Nodup

/-- What can happen to a ledger. The argument is the value claimed, if any. -/
inductive Change (L : Ledger ι α) : Option α → Ledger ι α → Prop
  | claim (i : ι) (a : α) (hi : L.claim i = none) : Change L (some a) ⟨L.book, update L.claim i (some a)⟩
  | enter (i : ι) (a : α) (book : List α) (hi : L.claim i = some a)
      (hmem : ∀ b ∈ book, b = a ∨ b ∈ L.book) (hnodup : L.book.Nodup → a ∉ L.book → book.Nodup) :
      Change L none ⟨book, update L.claim i none⟩
  | shorten (book : List α) (hsub : book.Sublist L.book) : Change L none ⟨book, L.claim⟩

theorem Change.refl (L : Ledger ι α) : L.Change none L := .shorten L.book (List.Sublist.refl _)

theorem held_of_change (h : L.Change x L') (ha : L'.Held a) : L.Held a ∨ x = some a := by
  cases h with
  | claim i b hi =>
    rcases ha with ha | ⟨j, hj⟩
    · exact .inl (.inl ha)
    · rcases of_update_some hj with ⟨-, rfl⟩ | ⟨-, hj⟩
      · exact .inr rfl
      · exact .inl (.inr ⟨j, hj⟩)
  | enter i b book hi hmem hnodup =>
    rcases ha with ha | ⟨j, hj⟩
    · rcases hmem a ha with rfl | ha
      · exact .inl (.inr ⟨i, hi⟩)
      · exact .inl (.inl ha)
    · exact .inl (.inr ⟨j, (of_update_none hj).2⟩)
  | shorten book hsub =>
    rcases ha with ha | hj
    · exact .inl (.inl (hsub.subset ha))
    · exact .inl (.inr hj)

theorem claim_of_change (h : L.Change x L') (hi : L'.claim i = some a) :
    L.claim i = some a ∨ x = some a := by
  cases h with
  | claim j b hj =>
    rcases of_update_some hi with ⟨-, rfl⟩ | ⟨-, hi⟩
    · exact .inr rfl
    · exact .inl hi
  | enter j b book hj hmem hnodup => exact .inl (of_update_none hi).2
  | shorten book hsub => exact .inl hi

theorem not_held_of_change (h : L.Change x L') (hx : x ≠ some a) (ha : ¬ L.Held a) : ¬ L'.Held a := by
  intro ha'
  exact (held_of_change h ha').elim ha hx

theorem Apart.change (h : L.Apart) (hc : L.Change x L') (hx : ∀ a, x = some a → ¬ L.Held a) :
    L'.Apart := by
  cases hc with
  | claim i a hi =>
    have ha := hx a rfl
    refine ⟨fun j b hj hb => ?_, fun j k b hj hk => ?_⟩
    · rcases of_update_some hj with ⟨-, rfl⟩ | ⟨-, hj⟩
      · exact ha (.inl hb)
      · exact h.notBooked j b hj hb
    · rcases of_update_some hj with ⟨hji, hb⟩ | ⟨-, hj⟩
      · rcases of_update_some hk with ⟨hki, -⟩ | ⟨-, hk⟩
        · exact hji.trans hki.symm
        · exact absurd (.inr ⟨k, hb ▸ hk⟩) ha
      · rcases of_update_some hk with ⟨-, hb⟩ | ⟨-, hk⟩
        · exact absurd (.inr ⟨j, hb ▸ hj⟩) ha
        · exact h.apart j k b hj hk
  | enter i a book hi hmem hnodup =>
    refine ⟨fun j b hj hb => ?_, fun j k b hj hk => ?_⟩
    · obtain ⟨hij, hj⟩ := of_update_none hj
      rcases hmem b hb with rfl | hb
      · exact hij (h.apart j i b hj hi)
      · exact h.notBooked j b hj hb
    · exact h.apart j k b (of_update_none hj).2 (of_update_none hk).2
  | shorten book hsub => exact ⟨fun j b hj hb => h.notBooked j b hj (hsub.subset hb), h.apart⟩

/-- **No change makes a value held twice**, if only values nobody holds are claimed. -/
theorem Distinct.change (hd : L.Distinct) (h : L.Change x L') (hx : ∀ a, x = some a → ¬ L.Held a) :
    L'.Distinct := by
  refine ⟨hd.toApart.change h hx, ?_⟩
  cases h with
  | claim => exact hd.nodup
  | enter i a book hi hmem hnodup => exact hnodup hd.nodup (hd.notBooked i a hi)
  | shorten book hsub => exact hd.nodup.sublist hsub

end Ledger
