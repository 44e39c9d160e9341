import PullStream.App.IniReader
import Mathlib.Data.Nat.Digits.Defs
/-!
# `p_atoof` (`string/p_string.cpp`)

`p_atoof` adds up the digits of a text in an `int`, and looks once for an overflow, at the end, by the sign. What it has
then is the number modulo `2^32` (`atoofFrom_digits`). So a number that is too large for an `int` is refused if it comes
out negative, and else the function returns what is left of it (`atoof_exact_iff`).
-/

namespace PullStream

/-! ### The function -/

/-- What a `char` is as an `int`. -/
def charInt (b : UInt8) : Int32 := b.toInt8.toInt32

/-- The loop of `p_atoof`, and what is done when it has come to the end of the text. -/
def atoofFrom (value : Int32) : Str → Int32
  | [] => if value < 0 then -1 else value
  | b :: line =>
    if charInt b < 48 ∨ charInt b > 57 then -1 else atoofFrom (value * 10 + (charInt b - 48)) line

/-- `p_atoof` of the `n` bytes at `line`. -/
def pAtoof (line : Str) : Int32 := if line.length = 0 then -1 else atoofFrom 0 line

/-! ### What it computes -/

/-- The number that a text of digits stands for. -/
def decimalValue (s : Str) : Nat := Nat.ofDigits 10 (s.reverse.map fun b => b.toNat - 48)

/-- The number if the text is one of digits and the number is an `int`, and `-1` if not. -/
def exactOrRefused (line : Str) : Int32 :=
  if line.all isDigit = true ∧ decimalValue line ≤ 2 ^ 31 - 1 then Int32.ofNat (decimalValue line) else -1

section

variable {b : UInt8} {s line : Str} {v : Nat} {value : Int32}

theorem decimalValue_cons : decimalValue (b :: s) = (b.toNat - 48) * 10 ^ s.length + decimalValue s := by
  rw [decimalValue, decimalValue, List.reverse_cons, List.map_append, Nat.ofDigits_append, List.map_singleton,
    Nat.ofDigits_singleton, List.length_map, List.length_reverse]
  ring

theorem toInt_charInt (b : UInt8) : (charInt b).toInt = (b.toNat : Int).bmod 256 := by
  rw [charInt, Int8.toInt_toInt32]
  exact BitVec.toInt_eq_toNat_bmod b.toBitVec

theorem charInt_out_iff : charInt b < 48 ∨ charInt b > 57 ↔ isDigit b = false := by
  have hlt := b.toNat_lt
  rw [← Bool.not_eq_true, isDigit_iff]
  simp only [GT.gt, Int32.lt_iff_toInt_lt, toInt_charInt, Int.bmod, Int32.reduceToInt]
  omega

theorem charInt_sub (hb : isDigit b = true) : charInt b - 48 = Int32.ofNat (b.toNat - 48) := by
  obtain ⟨hle, hge⟩ := isDigit_iff.mp hb
  rw [← Int32.toInt_inj, Int32.toInt_sub, toInt_charInt, Int32.toInt_ofNat_of_lt (by omega)]
  simp only [Int.bmod, Int32.reduceToInt]
  omega

theorem atoofFrom_not_digit (hs : ¬ ∀ b ∈ s, isDigit b = true) : atoofFrom value s = -1 := by
  induction s generalizing value with
  | nil => exact absurd nofun hs
  | cons b s ih =>
    rw [atoofFrom]
    split_ifs with hout
    · rfl
    · rw [charInt_out_iff, Bool.not_eq_false] at hout
      exact ih fun hall => hs (List.forall_mem_cons.mpr ⟨hout, hall⟩)

theorem ofNat_neg_iff : Int32.ofNat v < 0 ↔ 2 ^ 31 ≤ v % 2 ^ 32 := by
  rw [Int32.lt_iff_toInt_lt, Int32.toInt_ofNat']
  simp only [Int.bmod, Int32.reduceToInt, Int32.size]
  omega

/-- **The loop comes to the number modulo `2^32`**, where `v` is the number of the digits that have been read. -/
theorem atoofFrom_digits (hs : ∀ b ∈ s, isDigit b = true) : atoofFrom (Int32.ofNat v) s =
    if 2 ^ 31 ≤ (v * 10 ^ s.length + decimalValue s) % 2 ^ 32 then -1
    else Int32.ofNat (v * 10 ^ s.length + decimalValue s) := by
  induction s generalizing v with
  | nil =>
    have hv : v * 10 ^ ([] : Str).length + decimalValue [] = v := by
      rw [List.length_nil, pow_zero, Nat.mul_one]
      rfl
    rw [hv, atoofFrom]
    simp only [ofNat_neg_iff]
  | cons b s ih =>
    obtain ⟨hb, hs⟩ := List.forall_mem_cons.mp hs
    have hstep : Int32.ofNat v * 10 + (charInt b - 48) = Int32.ofNat (v * 10 + (b.toNat - 48)) := by
      rw [charInt_sub hb, Int32.ofNat_add, Int32.ofNat_mul]
      rfl
    have hv : v * 10 ^ (b :: s).length + decimalValue (b :: s) =
        (v * 10 + (b.toNat - 48)) * 10 ^ s.length + decimalValue s := by
      rw [decimalValue_cons, List.length_cons]
      ring
    have hin : ¬ (charInt b < 48 ∨ charInt b > 57) := by
      rw [charInt_out_iff, hb]
      exact nofun
    rw [hv, atoofFrom, if_neg hin, hstep, ih hs]

theorem pAtoof_digits (hline : line ≠ []) (hdigits : ∀ b ∈ line, isDigit b = true) : pAtoof line =
    if 2 ^ 31 ≤ decimalValue line % 2 ^ 32 then -1 else Int32.ofNat (decimalValue line) := by
  have hloop := atoofFrom_digits (v := 0) hdigits
  rw [Nat.zero_mul, Nat.zero_add] at hloop
  rw [pAtoof, if_neg fun h => hline (List.length_eq_zero_iff.mp h)]
  exact hloop

/-- **`p_atoof` is exact, or refuses the text, exactly if** the text is not one of digits, or its number is an `int`, or
the number modulo `2^32` is at least `2^31`, so that it is negative as an `int`. -/
theorem atoof_exact_iff (hline : line ≠ []) : pAtoof line = exactOrRefused line ↔
    ((∀ b ∈ line, isDigit b = true) → decimalValue line < 2 ^ 31 ∨ 2 ^ 31 ≤ decimalValue line % 2 ^ 32) := by
  by_cases hdigits : ∀ b ∈ line, isDigit b = true
  · rw [pAtoof_digits hline hdigits, exactOrRefused]
    by_cases hint : decimalValue line < 2 ^ 31
    · rw [if_neg (by omega), if_pos ⟨List.all_eq_true.mpr hdigits, by omega⟩]
      exact ⟨fun _ _ => .inl hint, fun _ => rfl⟩
    · rw [if_neg (c := _ ∧ _) (by omega)]
      by_cases hneg : 2 ^ 31 ≤ decimalValue line % 2 ^ 32
      · rw [if_pos hneg]
        exact ⟨fun _ _ => .inr hneg, fun _ => rfl⟩
      · -- a result that is not negative is not `-1`
        rw [if_neg hneg]
        constructor
        · intro h
          have hlt : Int32.ofNat (decimalValue line) < 0 := h ▸ by decide
          exact absurd (ofNat_neg_iff.mp hlt) hneg
        · intro h
          exact absurd (h hdigits) (not_or.mpr ⟨hint, hneg⟩)
  · rw [pAtoof, if_neg fun h => hline (List.length_eq_zero_iff.mp h), atoofFrom_not_digit hdigits, exactOrRefused,
      if_neg fun h => hdigits (List.all_eq_true.mp h.1)]
    exact ⟨fun _ h => absurd h hdigits, fun _ => rfl⟩

theorem atoof_refuses : pAtoof (lit "2147483648") = exactOrRefused (lit "2147483648") :=
  (atoof_exact_iff (by decide)).mpr fun _ => .inr (by decide)

/-- The number `2^32` is taken for `0`. -/
theorem atoof_wraps : ¬ ∀ line : Str, line ≠ [] → pAtoof line = exactOrRefused line := by
  intro h
  exact absurd (h (lit "4294967296") (by decide)) (by decide +kernel)

end

end PullStream
