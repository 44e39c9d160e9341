import Mathlib.Data.List.Basic
/-!
# Collections searched by the first match

A collection is the list of its records in insertion order. A lookup, an update and a removal act on the
first record that satisfies a predicate (`List.find?`, `modifyFirst`, `List.eraseP`).

When the predicate asks for a key, the collection is a family of independent lists, `slot key k l` being
the records of key `k` in insertion order: a lookup of `k` reads the head of its slot, an update changes
that head, a removal drops it, an insertion appends to one slot, and no other slot changes.
-/

namespace Keyed

variable {α β κ : Type*}

/-- Apply `f` to the first element that satisfies `p`. -/
def modifyFirst (p : α → Bool) (f : α → α) : List α → List α
  | [] => []
  | a :: l => if p a then f a :: l else a :: modifyFirst p f l

theorem mem_modifyFirst {p : α → Bool} {f : α → α} {l : List α} {b : α}
    (h : b ∈ modifyFirst p f l) : b ∈ l ∨ ∃ a, l.find? p = some a ∧ b = f a := by
  induction l with
  | nil => simp [modifyFirst] at h
  | cons a l ih =>
    rw [modifyFirst] at h
    split at h
    · rename_i hp
      rcases List.mem_cons.mp h with rfl | h
      · exact .inr ⟨a, List.find?_cons_of_pos hp, rfl⟩
      · exact .inl (by simp [h])
    · rename_i hp
      rcases List.mem_cons.mp h with rfl | h
      · exact .inl (by simp)
      · rcases ih h with h | ⟨c, hc, hb⟩
        · exact .inl (by simp [h])
        · exact .inr ⟨c, by rw [List.find?_cons_of_neg hp, hc], hb⟩

theorem modifyFirst_eq_self {p : α → Bool} {f : α → α} {l : List α} (h : ∀ a ∈ l, p a = false) :
    modifyFirst p f l = l := by
  induction l with
  | nil => rfl
  | cons b l ih =>
    rw [modifyFirst, if_neg (by simp [h b List.mem_cons_self]), ih fun a ha => h a (List.mem_cons_of_mem b ha)]

theorem mem_modifyFirst_of_not {p : α → Bool} {f : α → α} {l : List α} {a : α} (h : a ∈ l) (ha : p a = false) :
    a ∈ modifyFirst p f l := by
  induction l with
  | nil => cases h
  | cons b l ih =>
    rw [modifyFirst]
    split
    · rename_i hb
      rcases List.mem_cons.mp h with rfl | h
      · rw [ha] at hb
        cases hb
      · exact List.mem_cons_of_mem _ h
    · rcases List.mem_cons.mp h with rfl | h
      · exact List.mem_cons_self
      · exact List.mem_cons_of_mem _ (ih h)

theorem mem_modifyFirst_of_find? {p : α → Bool} {f : α → α} {l : List α} {a : α}
    (h : l.find? p = some a) : f a ∈ modifyFirst p f l := by
  induction l with
  | nil => cases h
  | cons b l ih =>
    rw [modifyFirst]
    by_cases hp : p b = true
    · rw [List.find?_cons_of_pos hp] at h
      cases h
      simp [hp]
    · rw [List.find?_cons_of_neg hp] at h
      simp [hp, ih h]

theorem modifyFirst_map {p : β → Bool} {f : β → β} {g : α → β} {f' : α → α} (hf : ∀ a, g (f' a) = f (g a))
    (l : List α) : (modifyFirst (fun a => p (g a)) f' l).map g = modifyFirst p f (l.map g) := by
  induction l with
  | nil => rfl
  | cons a l ih =>
    rw [List.map_cons, modifyFirst, modifyFirst, ← ih, apply_ite (List.map g), List.map_cons, List.map_cons, hf]

theorem map_modifyFirst {p : α → Bool} {f : α → α} {g : α → β} (hg : ∀ a, g (f a) = g a)
    (l : List α) : (modifyFirst p f l).map g = l.map g := by
  induction l with
  | nil => rfl
  | cons a l ih =>
    rw [modifyFirst]
    split
    · simp [hg]
    · simp [ih]

theorem modifyFirst_append {p : α → Bool} {f : α → α} {l l' : List α} {a : α} (hl : ∀ b ∈ l, p b = false)
    (ha : p a = true) : modifyFirst p f (l ++ a :: l') = l ++ f a :: l' := by
  induction l with
  | nil => simp [modifyFirst, ha]
  | cons b l ih =>
    rw [List.cons_append, modifyFirst, if_neg (by simp [hl b])]
    simp [ih fun c hc => hl c (List.mem_cons_of_mem b hc)]

theorem countP_modifyFirst_le {p q : α → Bool} {f : α → α} (hf : ∀ a, q (f a) = false) (l : List α) :
    (modifyFirst p f l).countP q ≤ l.countP q := by
  induction l with
  | nil => exact Nat.le_refl 0
  | cons a l ih =>
    rw [modifyFirst]
    split
    · simp [List.countP_cons, hf a]
    · simp only [List.countP_cons]
      omega

theorem countP_lt {p q : α → Bool} {l : List α} {a : α} (hpq : ∀ b ∈ l, p b = true → q b = true)
    (ha : a ∈ l) (hp : p a = false) (hq : q a = true) : l.countP p < l.countP q := by
  induction l with
  | nil => cases ha
  | cons b l ih =>
    have hle := List.countP_mono_left fun c hc => hpq c (List.mem_cons_of_mem b hc)
    rw [List.countP_cons, List.countP_cons]
    rcases List.mem_cons.mp ha with rfl | ha
    · rw [hp, hq]
      simp only [Bool.false_eq_true, if_false, if_true]
      omega
    · have hlt := ih (fun c hc => hpq c (List.mem_cons_of_mem b hc)) ha
      by_cases hb : p b = true
      · rw [if_pos hb, if_pos (hpq b List.mem_cons_self hb)]
        omega
      · rw [if_neg hb]
        omega

theorem nodup_modifyFirst {p : α → Bool} {f : α → α} {g : α → β} {l : List α}
    (h : (l.map g).Nodup) (hf : ∀ a ∈ l, ∀ b ∈ l, g (f a) ≠ g b) :
    ((modifyFirst p f l).map g).Nodup := by
  induction l with
  | nil => simp [modifyFirst]
  | cons a l ih =>
    rw [List.map_cons, List.nodup_cons] at h
    rw [modifyFirst]
    split
    · rw [List.map_cons, List.nodup_cons]
      refine ⟨fun hmem => ?_, h.2⟩
      obtain ⟨b, hb, hbe⟩ := List.mem_map.mp hmem
      exact hf a (by simp) b (by simp [hb]) hbe.symm
    · rw [List.map_cons, List.nodup_cons]
      refine ⟨fun hmem => ?_, ih h.2 fun b hb c hc => hf b (by simp [hb]) c (by simp [hc])⟩
      obtain ⟨b, hb, hbe⟩ := List.mem_map.mp hmem
      rcases mem_modifyFirst hb with hb | ⟨c, hc, rfl⟩
      · exact h.1 (List.mem_map.mpr ⟨b, hb, hbe⟩)
      · exact hf c (List.mem_cons_of_mem a (List.mem_of_find?_eq_some hc)) a (by simp) hbe

variable [DecidableEq κ] (key : α → κ)

/-- The records of key `k`, in insertion order. -/
def slot (k : κ) (l : List α) : List α := l.filter fun a => key a = k

@[simp] theorem mem_slot {k : κ} {l : List α} {a : α} : a ∈ slot key k l ↔ a ∈ l ∧ key a = k := by
  simp [slot]

theorem slot_sublist (k : κ) (l : List α) : (slot key k l).Sublist l :=
  List.filter_sublist

theorem slot_insert (k : κ) (l : List α) (a : α) :
    slot key k (l ++ [a]) = if key a = k then slot key k l ++ [a] else slot key k l := by
  by_cases h : key a = k <;> simp [slot, h]

theorem find?_slot (k : κ) (l : List α) :
    l.find? (fun a => key a = k) = (slot key k l).head? := by
  rw [slot, List.head?_filter]

@[simp] theorem slot_eraseP_self (k : κ) (l : List α) :
    slot key k (l.eraseP fun a => key a = k) = (slot key k l).tail := by
  induction l with
  | nil => rfl
  | cons a l ih =>
    by_cases h : key a = k
    · simp [slot, h]
    · simpa [slot, h] using ih

theorem slot_eraseP_ne {j k : κ} (hjk : j ≠ k) (l : List α) :
    slot key j (l.eraseP fun a => key a = k) = slot key j l := by
  induction l with
  | nil => rfl
  | cons a l ih =>
    by_cases h : key a = k
    · simp [slot, h, Ne.symm hjk]
    · by_cases hj : key a = j
      · subst hj
        simpa [slot, hjk] using ih
      · simpa [slot, h, hj] using ih

variable {key} in
theorem slot_modifyFirst_self {f : α → α} (hf : ∀ a, key (f a) = key a) (k : κ) (l : List α) :
    slot key k (modifyFirst (fun a => key a = k) f l) = (slot key k l).modifyHead f := by
  induction l with
  | nil => rfl
  | cons a l ih =>
    by_cases h : key a = k
    · simp [modifyFirst, slot, h, hf]
    · simpa [modifyFirst, slot, h] using ih

variable {key} in
theorem slot_modifyFirst_ne {f : α → α} (hf : ∀ a, key (f a) = key a) {j k : κ} (hjk : j ≠ k)
    (l : List α) : slot key j (modifyFirst (fun a => key a = k) f l) = slot key j l := by
  induction l with
  | nil => rfl
  | cons a l ih =>
    by_cases h : key a = k
    · simp [modifyFirst, slot, h, hf, Ne.symm hjk]
    · by_cases hj : key a = j
      · subst hj
        simpa [modifyFirst, slot, hjk] using ih
      · simpa [modifyFirst, slot, h, hj] using ih

end Keyed
