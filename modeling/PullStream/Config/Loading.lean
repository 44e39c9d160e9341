import PullStream.App.IniReader
/-!
# What a line is taken for

A piece of the file with both brackets in it is a header, wherever they stand, and otherwise one with a `=` is a pair,
divided at the first one (`parse_both`, `parse_of_not_both`). The position of the `]` is used after the `[` has been
erased and one has been subtracted from it, which makes it `-1` if the `]` is the first byte. So `Load` comes to its end
exactly if no piece begins with a `]` and has a `[` further on (`load_success_iff`).
-/

namespace PullStream

variable {l s key value text : Str} {b : UInt8} {name : Str} {r : IniReader}

theorem find_of_mem (h : b ∈ s) : find s b = s.idxOf b := if_pos h

theorem find_ne_iff : find s b ≠ -1 ↔ b ∈ s := by
  rw [find]
  split_ifs with h
  · exact iff_of_true (by omega) h
  · exact iff_of_false (fun hne => hne rfl) h

theorem eraseAt_of_le {n : Nat} (h : n ≤ s.length) : eraseAt s n = some (s.eraseIdx n) := by
  rw [eraseAt, if_pos ⟨Int.natCast_nonneg n, Int.ofNat_le.mpr h⟩, Int.toNat_natCast]

theorem substr_of_le {n m : Nat} (h : n ≤ s.length) : substr s n m = some ((s.drop n).take m) := by
  rw [substr, if_pos ⟨Int.natCast_nonneg n, Int.ofNat_le.mpr h⟩, Int.toNat_natCast, Int.toNat_natCast]

/-- The line without its first `[`, and without what the `]` was at, unless that stood before. -/
def headerName (l : Str) : Str := (l.eraseIdx (l.idxOf leftBracket)).eraseIdx (l.idxOf rightBracket - 1)

/-- The line has both brackets. -/
def Bracketed (l : Str) : Prop := leftBracket ∈ l ∧ rightBracket ∈ l

instance : DecidablePred Bracketed := fun l => inferInstanceAs (Decidable (leftBracket ∈ l ∧ rightBracket ∈ l))

/-- The line has both brackets and begins with the closing one. -/
def Unreadable (l : Str) : Prop := ∃ t, l = rightBracket :: t ∧ leftBracket ∈ t

theorem idxOf_eq_zero (h : b ∈ l) : l.idxOf b = 0 ↔ ∃ t, l = b :: t := by
  cases l with
  | nil => exact absurd h List.not_mem_nil
  | cons x t =>
    rw [List.idxOf_cons]
    by_cases hx : x = b
    · simp [hx]
    · simp [beq_false_of_ne hx, hx]

theorem unreadable_iff : Unreadable l ↔ Bracketed l ∧ l.idxOf rightBracket = 0 := by
  constructor
  · rintro ⟨t, rfl, ht⟩
    exact ⟨⟨List.mem_cons_of_mem _ ht, List.mem_cons_self⟩, List.idxOf_cons_self⟩
  · rintro ⟨⟨hleft, hright⟩, hidx⟩
    obtain ⟨t, rfl⟩ := (idxOf_eq_zero hright).mp hidx
    exact ⟨t, rfl, (List.mem_cons.mp hleft).resolve_left (by decide)⟩

instance : DecidablePred Unreadable := fun _ => decidable_of_iff _ unreadable_iff.symm

/-- **A line with both brackets** is a header, unless the position of the second comes to be `-1`. -/
theorem parse_both (h : Bracketed l) :
    parse l = if l.idxOf rightBracket = 0 then none else some (.header (headerName l)) := by
  obtain ⟨hleft, hright⟩ := h
  have hlt := List.idxOf_lt_length_of_mem hleft
  have hlt' := List.idxOf_lt_length_of_mem hright
  rw [parse, if_pos ⟨find_ne_iff.mpr hleft, find_ne_iff.mpr hright⟩, find_of_mem hleft, find_of_mem hright,
    eraseAt_of_le (Nat.le_of_lt hlt), Option.bind_eq_bind, Option.bind_some]
  split_ifs with hidx
  · rw [hidx]
    rfl
  · have hcast : ((l.idxOf rightBracket : Nat) : Int) - 1 = ((l.idxOf rightBracket - 1 : Nat) : Int) := by omega
    have hle : l.idxOf rightBracket - 1 ≤ (l.eraseIdx (l.idxOf leftBracket)).length := by
      rw [List.length_eraseIdx_of_lt hlt]
      omega
    simp only [hcast, eraseAt_of_le hle, Option.bind_some, headerName]
    rfl

/-- **A line without both brackets** is a pair if it has a `=`. -/
theorem parse_of_not_both (h : ¬ Bracketed l) :
    parse l = some (if equalsSign ∈ l then .pair (l.take (l.idxOf equalsSign)) (l.drop (l.idxOf equalsSign + 1))
      else .other) := by
  have hne : ¬ (find l leftBracket ≠ -1 ∧ find l rightBracket ≠ -1) := by
    rwa [find_ne_iff, find_ne_iff]
  rw [parse, if_neg hne]
  simp only [find_ne_iff]
  split_ifs with heq
  · have hlt := List.idxOf_lt_length_of_mem heq
    have hcast : (l.length : Int) - (l.idxOf equalsSign : Nat) - 1 =
        ((l.length - l.idxOf equalsSign - 1 : Nat) : Int) := by
      omega
    have hkey : substr l 0 (l.idxOf equalsSign : Nat) = some (l.take (l.idxOf equalsSign)) :=
      substr_of_le (Nat.zero_le _)
    have hvalue : substr l ((l.idxOf equalsSign : Nat) + 1) (l.length - (l.idxOf equalsSign : Nat) - 1) =
        some (l.drop (l.idxOf equalsSign + 1)) := by
      rw [hcast, ← Int.natCast_succ, substr_of_le hlt, List.take_of_length_le]
      rw [List.length_drop]
      omega
    rw [find_of_mem heq, hkey, hvalue]
    rfl
  · rfl

theorem parse_pair (hkey : equalsSign ∉ key) (h : ¬ Bracketed (key ++ equalsSign :: value)) :
    parse (key ++ equalsSign :: value) = some (.pair key value) := by
  have hidx : (key ++ equalsSign :: value).idxOf equalsSign = key.length := by
    rw [List.idxOf_append_of_notMem hkey, List.idxOf_cons_self]
    rfl
  rw [parse_of_not_both h, if_pos (List.mem_append_right _ List.mem_cons_self), hidx, List.take_left,
    ← List.drop_drop, List.drop_left]
  rfl

theorem eq_of_parse_pair (h : parse l = some (.pair key value)) :
    ¬ Bracketed l ∧ l = key ++ equalsSign :: value ∧ equalsSign ∉ key := by
  by_cases hl : Bracketed l
  · rw [parse_both hl] at h
    split_ifs at h
    cases h
  · by_cases heq : equalsSign ∈ l
    · obtain ⟨k, v, rfl, hk⟩ := List.eq_append_cons_of_mem heq
      rw [parse_pair hk hl] at h
      cases h
      exact ⟨hl, rfl, hk⟩
    · rw [parse_of_not_both hl, if_neg heq] at h
      cases h

theorem eq_of_parse_header (h : parse l = some (.header name)) : Bracketed l ∧ name = headerName l := by
  by_cases hl : Bracketed l
  · rw [parse_both hl] at h
    split_ifs at h
    cases h
    exact ⟨hl, rfl⟩
  · rw [parse_of_not_both hl] at h
    split_ifs at h <;> cases h

theorem parse_eq_none_iff : parse l = none ↔ Unreadable l := by
  rw [unreadable_iff]
  by_cases h : Bracketed l
  · rw [parse_both h]
    split_ifs with hidx
    · exact iff_of_true rfl ⟨h, hidx⟩
    · exact iff_of_false nofun fun hun => hidx hun.2
  · rw [parse_of_not_both h]
    exact iff_of_false nofun fun hun => h hun.1

theorem loop_fst_iff {ps : List Str} {st : Reading} :
    (Reading.loop ps st).1 = true ↔ ∀ p ∈ ps, ¬ Unreadable (szLine p) := by
  induction ps generalizing st with
  | nil => exact iff_of_true rfl nofun
  | cons p ps ih =>
    rw [Reading.loop, List.forall_mem_cons, ← parse_eq_none_iff]
    cases hp : parse (szLine p) with
    | none => exact iff_of_false nofun fun h => h.1 rfl
    | some item => exact ih.trans (and_iff_right nofun).symm

theorem loop_inv {ps : List Str} {st : Reading} (I : Reading → Prop) (h₀ : I st)
    (hstep : ∀ p ∈ ps, ∀ st item, I st → parse (szLine p) = some item → I (st.take item)) :
    I (Reading.loop ps st).2 := by
  induction ps generalizing st with
  | nil => exact h₀
  | cons p ps ih =>
    rw [List.forall_mem_cons] at hstep
    rw [Reading.loop]
    cases hp : parse (szLine p) with
    | none => exact h₀
    | some item => exact ih (hstep.1 st item h₀ hp) hstep.2

/-- **`Load` comes to its end exactly if no piece of the file begins with a `]` and has a `[` further on.** -/
theorem load_success_iff : (r.load (some text)).1 = some .success ↔ ∀ p ∈ pieces text, ¬ Unreadable (szLine p) := by
  rw [← @loop_fst_iff (pieces text) .start, IniReader.load]
  split
  · rename_i st hloop
    exact iff_of_true rfl (congrArg Prod.fst hloop)
  · rename_i st hloop
    refine iff_of_false nofun fun h => ?_
    rw [hloop] at h
    cases h

/-- In the line `][` the second `erase` gets the position `-1`. -/
theorem closing_bracket_first : (IniReader.new.load (some (lit "][\n"))).1 ≠ some .success := by decide

end PullStream
