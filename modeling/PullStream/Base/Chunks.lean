import Mathlib.Data.List.Basic
/-!
# Reading a text in chunks

A text is read into a buffer of `n + 1` elements again and again. A read stops after the end of a line, and when the
buffer is full (`read`). What the reads give, one after another, are the `chunks` of the text.

* `chunks_cons` says that the chunks are what the reads give, and `chunks_induction` is the induction along the reads;
* `chunks_line`, `chunks_full` and `chunks_last` are the first chunk of a text that begins with a line that fits, with a
  full buffer, or that is one line without an end;
* `chunks_append`: after the end of a line reading starts afresh;
* `begun_chunks`: the chunks at which a line begins are the beginnings of the `lines`.
-/

namespace Chunks

variable {α : Type*} {isEnd : α → Bool} {n room : Nat} {xs t rest : List α} {e : α}

/-- One read of at most so many elements, and what is left. -/
def read (isEnd : α → Bool) : Nat → List α → List α × List α
  | 0, xs => ([], xs)
  | _ + 1, [] => ([], [])
  | size + 1, x :: xs => if isEnd x then ([x], xs) else ((x :: (read isEnd size xs).1), (read isEnd size xs).2)

/-- What the reads give. The first of them may take one element and `room` more. -/
def chunksFrom (isEnd : α → Bool) (n : Nat) : Nat → List α → List (List α)
  | _, [] => []
  | 0, x :: xs => [x] :: chunksFrom isEnd n n xs
  | room + 1, x :: xs =>
    if isEnd x then [x] :: chunksFrom isEnd n n xs
    else match chunksFrom isEnd n room xs with
      | [] => [[x]]
      | c :: cs => (x :: c) :: cs

/-- The chunks of a text, each of at most `n + 1` elements. -/
def chunks (isEnd : α → Bool) (n : Nat) (xs : List α) : List (List α) := chunksFrom isEnd n n xs

/-- The lines of a text, each with its end. -/
def lines (isEnd : α → Bool) : List α → List (List α)
  | [] => []
  | x :: xs =>
    if isEnd x then [x] :: lines isEnd xs
    else match lines isEnd xs with
      | [] => [[x]]
      | l :: ls => (x :: l) :: ls

/-- The chunk has the end of its line. -/
def ends (isEnd : α → Bool) (c : List α) : Bool := c.getLast?.any isEnd

/-- Chunks with whether a line begins there, which the first does if `b` is true. -/
def tagged (isEnd : α → Bool) : Bool → List (List α) → List (Bool × List α)
  | _, [] => []
  | b, c :: cs => (b, c) :: tagged isEnd (ends isEnd c) cs

/-! ### Reads -/

theorem read_append (isEnd : α → Bool) (size : Nat) (xs : List α) :
    (read isEnd size xs).1 ++ (read isEnd size xs).2 = xs := by
  induction size generalizing xs with
  | zero => rfl
  | succ size ih =>
    cases xs with
    | nil => rfl
    | cons x xs =>
      rw [read]
      split_ifs
      · rfl
      · exact congrArg (x :: ·) (ih xs)

theorem length_read_le (size : Nat) (xs : List α) : (read isEnd size xs).1.length ≤ size := by
  induction size generalizing xs with
  | zero => exact Nat.le_refl 0
  | succ size ih =>
    cases xs with
    | nil => exact Nat.zero_le _
    | cons x xs =>
      rw [read]
      split_ifs
      · simp
      · exact Nat.succ_le_succ (ih xs)

theorem read_line (ht : ∀ x ∈ t, isEnd x = false) (he : isEnd e = true) {size : Nat} (hlen : t.length < size) :
    read isEnd size (t ++ e :: rest) = (t ++ [e], rest) := by
  induction t generalizing size with
  | nil =>
    obtain ⟨size, rfl⟩ := Nat.exists_eq_add_of_lt hlen
    simp [read, he]
  | cons x t ih =>
    cases size with
    | zero => simp at hlen
    | succ size =>
      rw [List.forall_mem_cons] at ht
      rw [List.cons_append, read, if_neg (by simp [ht.1]), ih ht.2 (by simpa using hlen)]
      rfl

theorem read_full (ht : ∀ x ∈ t, isEnd x = false) : read isEnd t.length (t ++ rest) = (t, rest) := by
  induction t with
  | nil => cases rest <;> rfl
  | cons x t ih =>
    rw [List.forall_mem_cons] at ht
    rw [List.cons_append, List.length_cons, read, if_neg (by simp [ht.1]), ih ht.2]

theorem read_last (ht : ∀ x ∈ t, isEnd x = false) {size : Nat} (hlen : t.length ≤ size) :
    read isEnd size t = (t, []) := by
  induction t generalizing size with
  | nil => cases size <;> rfl
  | cons x t ih =>
    cases size with
    | zero => simp at hlen
    | succ size =>
      rw [List.forall_mem_cons] at ht
      rw [read, if_neg (by simp [ht.1]), ih ht.2 (by simpa using hlen)]

/-! ### Chunks -/

theorem chunksFrom_cons (room : Nat) {x : α} (xs : List α) :
    chunksFrom isEnd n room (x :: xs) = (read isEnd (room + 1) (x :: xs)).1 ::
      chunksFrom isEnd n n (read isEnd (room + 1) (x :: xs)).2 := by
  induction xs generalizing room x with
  | nil => cases room <;> by_cases hx : isEnd x <;> simp [chunksFrom, read, hx]
  | cons y ys ih =>
    cases room with
    | zero => by_cases hx : isEnd x <;> simp [chunksFrom, read, hx]
    | succ room =>
      rw [chunksFrom, read]
      split_ifs with hx
      · rfl
      · rw [ih]

theorem chunks_cons (hxs : xs ≠ []) :
    chunks isEnd n xs = (read isEnd (n + 1) xs).1 :: chunks isEnd n (read isEnd (n + 1) xs).2 := by
  obtain ⟨x, xs, rfl⟩ := List.exists_cons_of_ne_nil hxs
  exact chunksFrom_cons n xs

@[simp] theorem chunks_nil : chunks isEnd n [] = [] := by
  rw [chunks, chunksFrom]

theorem length_read_snd_lt (hxs : xs ≠ []) : (read isEnd (n + 1) xs).2.length < xs.length := by
  obtain ⟨x, xs, rfl⟩ := List.exists_cons_of_ne_nil hxs
  rw [read]
  split_ifs
  · simp
  · have happ := congrArg List.length (read_append isEnd n xs)
    rw [List.length_append] at happ
    simp only [List.length_cons]
    omega

theorem chunks_induction {P : List α → List (List α) → Prop} (nil : P [] [])
    (cons : ∀ xs, xs ≠ [] → P (read isEnd (n + 1) xs).2 (chunks isEnd n (read isEnd (n + 1) xs).2) →
      P xs ((read isEnd (n + 1) xs).1 :: chunks isEnd n (read isEnd (n + 1) xs).2)) (xs : List α) :
    P xs (chunks isEnd n xs) := by
  induction hlen : xs.length using Nat.strongRecOn generalizing xs with
  | ind m ih =>
    rcases eq_or_ne xs [] with rfl | hxs
    · rw [chunks_nil]
      exact nil
    · rw [chunks_cons hxs]
      exact cons xs hxs (ih _ (hlen ▸ length_read_snd_lt hxs) _ rfl)

theorem length_le_of_mem : ∀ c ∈ chunks isEnd n xs, c.length ≤ n + 1 := by
  refine chunks_induction (P := fun _ cs => ∀ c ∈ cs, c.length ≤ n + 1) nofun ?_ xs
  intro xs _ ih c hc
  rcases List.mem_cons.mp hc with rfl | hc
  · exact length_read_le ..
  · exact ih c hc

theorem chunks_line (ht : ∀ x ∈ t, isEnd x = false) (he : isEnd e = true) (hlen : t.length ≤ n) :
    chunks isEnd n (t ++ e :: rest) = (t ++ [e]) :: chunks isEnd n rest := by
  rw [chunks_cons (by simp), read_line ht he (Nat.lt_succ_of_le hlen)]

theorem chunks_full (ht : ∀ x ∈ t, isEnd x = false) (hlen : t.length = n + 1) :
    chunks isEnd n (t ++ rest) = t :: chunks isEnd n rest := by
  have hne : t ++ rest ≠ [] := by
    intro h
    rw [(List.append_eq_nil_iff.mp h).1] at hlen
    cases hlen
  rw [chunks_cons hne, ← hlen, read_full ht]

theorem chunks_last (ht : ∀ x ∈ t, isEnd x = false) (hne : t ≠ []) (hlen : t.length ≤ n + 1) :
    chunks isEnd n t = [t] := by
  rw [chunks_cons hne, read_last ht hlen, chunks_nil]

theorem chunksFrom_ne_nil (isEnd : α → Bool) (n room : Nat) (x : α) (xs : List α) :
    chunksFrom isEnd n room (x :: xs) ≠ [] := by
  rw [chunksFrom_cons]
  exact List.cons_ne_nil _ _

theorem chunksFrom_append (room : Nat) (hends : ends isEnd t = true) :
    chunksFrom isEnd n room (t ++ rest) = chunksFrom isEnd n room t ++ chunksFrom isEnd n n rest := by
  induction t generalizing room with
  | nil => cases hends
  | cons x t ih =>
    cases t with
    | nil =>
      have hx : isEnd x = true := hends
      cases room <;> simp [chunksFrom, hx]
    | cons y t =>
      have htail : ends isEnd (y :: t) = true := by
        rw [ends, List.getLast?_cons_cons] at hends
        exact hends
      cases room with
      | zero => rw [List.cons_append, chunksFrom, chunksFrom, ih n htail, List.cons_append]
      | succ room =>
        rw [List.cons_append, chunksFrom, chunksFrom, ih n htail, ih room htail]
        split_ifs
        · rfl
        · obtain ⟨c, cs, hcs⟩ := List.exists_cons_of_ne_nil (chunksFrom_ne_nil isEnd n room y t)
          rw [hcs]
          rfl

theorem chunks_append (hends : t = [] ∨ ends isEnd t = true) :
    chunks isEnd n (t ++ rest) = chunks isEnd n t ++ chunks isEnd n rest := by
  rcases hends with rfl | hends
  · rfl
  · exact chunksFrom_append n hends

/-! ### Lines -/

/-- The chunks, out of tagged ones, at which a line begins. -/
def begun (cs : List (Bool × List α)) : List (List α) := (cs.filter fun c => c.1).map fun c => c.2

/-- The chunks, out of tagged ones, that go on with a line. -/
def continued (cs : List (Bool × List α)) : List (List α) := (cs.filter fun c => !c.1).map fun c => c.2

theorem snd_tagged (b : Bool) (cs : List (List α)) : (tagged isEnd b cs).map Prod.snd = cs := by
  induction cs generalizing b with
  | nil => rfl
  | cons c cs ih => rw [tagged, List.map_cons, ih]

theorem begun_tagged_cons {b : Bool} {c : List α} {cs : List (List α)} :
    begun (tagged isEnd b (c :: cs)) = (if b then [c] else []) ++ begun (tagged isEnd (ends isEnd c) cs) := by
  cases b <;> rfl

theorem mem_begun_or_continued (b : Bool) {c : List α} {cs : List (List α)} (hc : c ∈ cs) :
    c ∈ begun (tagged isEnd b cs) ∨ c ∈ continued (tagged isEnd b cs) := by
  induction cs generalizing b with
  | nil => exact absurd hc List.not_mem_nil
  | cons d cs ih =>
    rcases List.mem_cons.mp hc with rfl | hc
    · cases b <;> simp [tagged, begun, continued]
    · rcases ih (ends isEnd d) hc with hbegun | htail
      · refine .inl ?_
        rw [begun_tagged_cons]
        exact List.mem_append_right _ hbegun
      · refine .inr ?_
        cases b with
        | false => exact List.mem_cons_of_mem _ htail
        | true => exact htail

theorem lines_line (ht : ∀ x ∈ t, isEnd x = false) (he : isEnd e = true) :
    lines isEnd (t ++ e :: rest) = (t ++ [e]) :: lines isEnd rest := by
  induction t with
  | nil => simp [lines, he]
  | cons x t ih =>
    rw [List.forall_mem_cons] at ht
    rw [List.cons_append, lines, if_neg (by simp [ht.1]), ih ht.2]
    rfl

theorem lines_last (ht : ∀ x ∈ t, isEnd x = false) (hne : t ≠ []) : lines isEnd t = [t] := by
  induction t with
  | nil => exact absurd rfl hne
  | cons x t ih =>
    rw [List.forall_mem_cons] at ht
    rw [lines, if_neg (by simp [ht.1])]
    cases t with
    | nil => rfl
    | cons y t => rw [ih ht.2 (List.cons_ne_nil _ _)]

theorem exists_line (isEnd : α → Bool) (xs : List α) : (∀ x ∈ xs, isEnd x = false) ∨
    ∃ t e rest, (∀ x ∈ t, isEnd x = false) ∧ isEnd e = true ∧ xs = t ++ e :: rest := by
  induction xs with
  | nil => exact .inl nofun
  | cons x xs ih =>
    cases hx : isEnd x with
    | true => exact .inr ⟨[], x, xs, nofun, hx, rfl⟩
    | false =>
      rcases ih with hxs | ⟨t, e, rest, ht, he, rfl⟩
      · exact .inl (List.forall_mem_cons.mpr ⟨hx, hxs⟩)
      · exact .inr ⟨x :: t, e, rest, List.forall_mem_cons.mpr ⟨hx, ht⟩, he, rfl⟩

theorem ends_of_forall (ht : ∀ x ∈ t, isEnd x = false) : ends isEnd t = false := by
  rw [ends]
  cases hlast : t.getLast? with
  | none => rfl
  | some x => exact ht x (List.mem_of_getLast? hlast)

theorem ends_concat (he : isEnd e = true) : ends isEnd (t ++ [e]) = true := by
  rw [ends, List.getLast?_concat]
  exact he

theorem begun_chunks_line (ht : ∀ x ∈ t, isEnd x = false) (he : isEnd e = true) (b : Bool) :
    begun (tagged isEnd b (chunks isEnd n (t ++ e :: rest))) =
      (if b then [(t ++ [e]).take (n + 1)] else []) ++ begun (tagged isEnd true (chunks isEnd n rest)) := by
  induction hlen : t.length using Nat.strongRecOn generalizing t b with
  | ind m ih =>
    rcases Nat.lt_or_ge n t.length with hlong | hshort
    · obtain ⟨t₁, t₂, rfl, hlen₁⟩ : ∃ t₁ t₂, t = t₁ ++ t₂ ∧ t₁.length = n + 1 :=
        ⟨t.take (n + 1), t.drop (n + 1), (List.take_append_drop ..).symm, List.length_take_of_le hlong⟩
      obtain ⟨ht₁, ht₂⟩ := List.forall_mem_append.mp ht
      have hrest := ih t₂.length (by simp at hlen; omega) ht₂ false rfl
      rw [List.append_assoc, chunks_full ht₁ hlen₁, begun_tagged_cons, ends_of_forall ht₁, hrest]
      rw [List.append_assoc, ← hlen₁, List.take_left]
      rfl
    · rw [chunks_line ht he hshort, begun_tagged_cons, ends_concat he, List.take_of_length_le (by simpa using hshort)]

theorem begun_chunks_last (ht : ∀ x ∈ t, isEnd x = false) (hne : t ≠ []) (b : Bool) :
    begun (tagged isEnd b (chunks isEnd n t)) = if b then [t.take (n + 1)] else [] := by
  induction hlen : t.length using Nat.strongRecOn generalizing t b with
  | ind m ih =>
    rcases Nat.lt_or_ge (n + 1) t.length with hlong | hshort
    · obtain ⟨t₁, t₂, rfl, hlen₁⟩ : ∃ t₁ t₂, t = t₁ ++ t₂ ∧ t₁.length = n + 1 :=
        ⟨t.take (n + 1), t.drop (n + 1), (List.take_append_drop ..).symm, List.length_take_of_le (Nat.le_of_lt hlong)⟩
      obtain ⟨ht₁, ht₂⟩ := List.forall_mem_append.mp ht
      have hne₂ : t₂ ≠ [] := by
        rintro rfl
        simp at hlong
        omega
      have hrest := ih t₂.length (by simp at hlen; omega) ht₂ hne₂ false rfl
      rw [chunks_full ht₁ hlen₁, begun_tagged_cons, ends_of_forall ht₁, hrest, ← hlen₁, List.take_left]
      cases b <;> rfl
    · rw [chunks_last ht hne hshort, begun_tagged_cons, List.take_of_length_le hshort]
      exact List.append_nil _

/-- **The chunks at which lines begin are the beginnings of the lines.** -/
theorem begun_chunks (xs : List α) :
    begun (tagged isEnd true (chunks isEnd n xs)) = (lines isEnd xs).map fun l => l.take (n + 1) := by
  induction hlen : xs.length using Nat.strongRecOn generalizing xs with
  | ind m ih =>
    rcases eq_or_ne xs [] with rfl | hxs
    · rw [chunks_nil]
      rfl
    · rcases exists_line isEnd xs with ht | ⟨t, e, rest, ht, he, rfl⟩
      · rw [begun_chunks_last ht hxs, lines_last ht hxs]
        rfl
      · have hrest := ih rest.length (by simp at hlen; omega) rest rfl
        rw [begun_chunks_line ht he, lines_line ht he, hrest]
        rfl

end Chunks
