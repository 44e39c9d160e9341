import Mathlib.Algebra.GroupWithZero.Nat
import Mathlib.Algebra.Order.BigOperators.Group.Finset
import PullStream.Base.Run
/-!
# Bounded work

A potential is a natural number that no step of a system raises and that the steps of some kind lower. A run
has no more steps of this kind than the potential at its start (`Runs.countP_le`).

When a quantity is a sum over parties and a step changes the share of one party alone, what the step does to
the sum is what it does to this share (`sum_add_of_update`, `sum_lt_of_update`, `sum_map_set`).
-/

namespace Transition

variable {S L : Type*} {step : L → S → Option S} {ok : S → L → Prop} {s u : S} {ls : List L}

/-- **The steps of a run that lower the potential are bounded by it.** -/
theorem Runs.countP_le (I : S → Prop) (μ : S → Nat) (p : L → Bool) (h0 : I s)
    (hI : ∀ t l u, I t → ok t l → step l t = some u → I u)
    (hle : ∀ t l u, I t → ok t l → step l t = some u → μ u ≤ μ t)
    (hlt : ∀ t l u, I t → ok t l → step l t = some u → p l = true → μ u < μ t)
    (h : Runs step ok s ls u) : ls.countP p + μ u ≤ μ s := by
  have hinv := h.strengthen I h0 hI
  clear h
  induction hinv with
  | nil => simp
  | @snoc ls t u l hrun hl hstep ih =>
    obtain ⟨ht, hok⟩ := hl
    rw [List.countP_append, List.countP_singleton]
    split_ifs with hp
    · have hlower := hlt t l u ht hok hstep hp
      omega
    · have hkeep := hle t l u ht hok hstep
      omega

section

variable {ι : Type*} {A : Finset ι} {f g : ι → Nat} {i : ι}

theorem sum_add_of_update (hA : i ∈ A) (hg : ∀ j, j ≠ i → g j = f j) :
    (∑ j ∈ A, g j) + f i = (∑ j ∈ A, f j) + g i := by
  classical
  have hrest : ∑ j ∈ A.erase i, g j = ∑ j ∈ A.erase i, f j :=
    Finset.sum_congr rfl fun j hj => hg j (Finset.ne_of_mem_erase hj)
  rw [← Finset.add_sum_erase A g hA, ← Finset.add_sum_erase A f hA, hrest]
  omega

theorem sum_lt_of_update (hA : i ∈ A) (hg : ∀ j, j ≠ i → g j = f j) (hi : g i < f i) :
    ∑ j ∈ A, g j < ∑ j ∈ A, f j := by
  have hsum := sum_add_of_update hA hg
  omega

theorem sum_map_set {α : Type*} {f : α → Nat} {l : List α} {i : Nat} {a : α} (hi : l[i]? = some a) (b : α) :
    ((l.set i b).map f).sum + f a = (l.map f).sum + f b := by
  induction l generalizing i with
  | nil =>
    rw [List.getElem?_nil] at hi
    cases hi
  | cons c l ih =>
    cases i with
    | zero =>
      rw [List.getElem?_cons_zero] at hi
      obtain rfl : c = a := Option.some.inj hi
      simp only [List.set_cons_zero, List.map_cons, List.sum_cons]
      omega
    | succ i =>
      rw [List.getElem?_cons_succ] at hi
      have hrest := ih hi
      simp only [List.set_cons_succ, List.map_cons, List.sum_cons]
      omega

end

end Transition
