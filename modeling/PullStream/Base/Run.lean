import Mathlib.Logic.Basic
/-!
# Runs of a labelled transition function

A system is a function `step : L → S → Option S`: what the label `l` does in the state `s`, or `none`
when `l` is not enabled there. All nondeterminism is in the choice of the labels, so a run is a list of
labels, and an interleaving of several parties is a run whose labels say which party moves.

* `check` runs a list of labels and tests a condition before every step;
* `Runs step ok s ls u`: the labels `ls` lead from `s` to `u`, each allowed by `ok` where it is taken;
* `Runs.inv`: what holds at the start and is kept by every allowed step holds at the end;
* `Runs.always_iff`: a property of states that a step keeps exactly if the step meets a condition;
* `Runs.lift`: runs of a system that a function `f` simulates are images of runs under `f`.
-/

namespace Transition

variable {S L : Type*}

/-- Take the labels of a list in order, testing `ok` before each of them. -/
def check (step : L → S → Option S) (ok : S → L → Prop) [∀ s l, Decidable (ok s l)] :
    List L → S → Option S
  | [], s => some s
  | l :: ls, s => if ok s l then (step l s).bind (check step ok ls) else none

/-- The labels `ls` lead from `s` to the last argument, each allowed by `ok` in the state it is taken in. -/
inductive Runs (step : L → S → Option S) (ok : S → L → Prop) (s : S) : List L → S → Prop
  | nil : Runs step ok s [] s
  | snoc {ls : List L} {t u : S} {l : L} :
      Runs step ok s ls t → ok t l → step l t = some u → Runs step ok s (ls ++ [l]) u

namespace Runs

variable {step : L → S → Option S} {ok ok' : S → L → Prop} {s t u : S} {ls ls' : List L}

theorem mono (hok : ∀ s l, ok s l → ok' s l) (h : Runs step ok s ls u) : Runs step ok' s ls u := by
  induction h with
  | nil => exact nil
  | snoc _ hl hstep ih => exact ih.snoc (hok _ _ hl) hstep

theorem mono_of_step (hok : ∀ s l u, step l s = some u → ok s l → ok' s l) (h : Runs step ok s ls u) :
    Runs step ok' s ls u := by
  induction h with
  | nil => exact nil
  | snoc _ hl hstep ih => exact ih.snoc (hok _ _ _ hstep hl) hstep

theorem trans (h : Runs step ok s ls t) (h' : Runs step ok t ls' u) :
    Runs step ok s (ls ++ ls') u := by
  induction h' with
  | nil => simpa using h
  | snoc _ hl hstep ih =>
    rw [← List.append_assoc]
    exact ih.snoc hl hstep

theorem single {l : L} (hl : ok s l) (hstep : step l s = some u) : Runs step ok s [l] u :=
  nil.snoc hl hstep

theorem mem_label (h : Runs step ok s ls u) : Runs step (fun t l => ok t l ∧ l ∈ ls) s ls u := by
  induction h with
  | nil => exact nil
  | snoc _ hl hstep ih =>
    refine snoc (ih.mono fun _ _ hm => ⟨hm.1, List.mem_append_left _ hm.2⟩) ⟨hl, ?_⟩ hstep
    exact List.mem_append_right _ (List.mem_singleton_self _)

theorem last {l : L} (h : Runs step ok s (ls ++ [l]) u) : ∃ t, Runs step ok s ls t ∧ ok t l ∧ step l t = some u := by
  generalize hls : ls ++ [l] = ls' at h
  cases h with
  | nil => simp at hls
  | snoc hrun hl hstep =>
    obtain ⟨rfl, hl'⟩ := List.append_inj' hls rfl
    cases hl'
    exact ⟨_, hrun, hl, hstep⟩

theorem invTrace (I : List L → S → Prop) (h0 : I [] s)
    (hs : ∀ ls t l u, I ls t → ok t l → step l t = some u → I (ls ++ [l]) u)
    (h : Runs step ok s ls u) : I ls u := by
  induction h with
  | nil => exact h0
  | snoc _ hl hstep ih => exact hs _ _ _ _ ih hl hstep

/-- **The invariant rule.** -/
theorem inv (I : S → Prop) (h0 : I s) (hs : ∀ t l u, I t → ok t l → step l t = some u → I u)
    (h : Runs step ok s ls u) : I u :=
  h.invTrace (fun _ => I) h0 (fun _ => hs)

theorem strengthen (I : S → Prop) (h0 : I s)
    (hs : ∀ t l u, I t → ok t l → step l t = some u → I u) (h : Runs step ok s ls u) :
    Runs step (fun t l => I t ∧ ok t l) s ls u := by
  induction h with
  | nil => exact nil
  | snoc hrun hl hstep ih => exact ih.snoc ⟨hrun.inv I h0 hs, hl⟩ hstep

theorem exchange {step' : L → S → Option S} (I : S → Prop) (h0 : I s)
    (hs : ∀ t l u, I t → ok t l → step l t = some u → I u) (hstep : ∀ t l, I t → step' l t = step l t)
    (h : Runs step ok s ls u) : Runs step' ok s ls u := by
  have hinv := h.strengthen I h0 hs
  clear h
  induction hinv with
  | nil => exact nil
  | snoc _ hl hlast ih => exact ih.snoc hl.2 ((hstep _ _ hl.1).trans hlast)

theorem always_iff (I P : S → Prop) {c : S → L → Prop} (hI₀ : I s) (hP₀ : P s)
    (hI : ∀ t l u, I t → ok t l → step l t = some u → I u)
    (hP : ∀ t l u, I t → P t → ok t l → step l t = some u → (P u ↔ c t l)) :
    (Runs step (fun t l => ok t l ∧ P t) s ls u ∧ P u) ↔ Runs step (fun t l => ok t l ∧ c t l) s ls u := by
  constructor
  · rintro ⟨h, hu⟩
    have hinv := h.strengthen I hI₀ fun t l u ht hl hstep => hI t l u ht hl.1 hstep
    clear h
    induction hinv with
    | nil => exact nil
    | snoc hrun hl hstep ih =>
      obtain ⟨ht, hok, hPt⟩ := hl
      exact (ih hPt).snoc ⟨hok, (hP _ _ _ ht hPt hok hstep).mp hu⟩ hstep
  · intro h
    have hinv := h.strengthen I hI₀ fun t l u ht hl hstep => hI t l u ht hl.1 hstep
    clear h
    induction hinv with
    | nil => exact ⟨nil, hP₀⟩
    | snoc hrun hl hstep ih =>
      obtain ⟨ht, hok, hc⟩ := hl
      exact ⟨ih.1.snoc ⟨hok, ih.2⟩ hstep, (hP _ _ _ ht ih.2 hok hstep).mpr hc⟩

/-- **Simulation by a function.** If `f` turns every step of `step` into the same step of `step'`,
the runs of `step'` from `f s` are the images of the runs of `step` from `s`. -/
theorem lift {S' : Type*} {step' : L → S' → Option S'} (f : S → S')
    (hf : ∀ l s, step' l (f s) = (step l s).map f) {ok : S' → L → Prop} {u' : S'}
    (h : Runs step' ok (f s) ls u') :
    ∃ u, f u = u' ∧ Runs step (fun t l => ok (f t) l) s ls u := by
  induction h with
  | nil => exact ⟨s, rfl, nil⟩
  | snoc _ hl hstep ih =>
    obtain ⟨t, rfl, hrun⟩ := ih
    rw [hf, Option.map_eq_some_iff] at hstep
    obtain ⟨u, hu, rfl⟩ := hstep
    exact ⟨u, rfl, hrun.snoc hl hu⟩

theorem image {S' : Type*} {step' : L → S' → Option S'} (f : S → S')
    (hf : ∀ l s, step' l (f s) = (step l s).map f) {ok' : S' → L → Prop}
    (hok : ∀ s l, ok s l → ok' (f s) l) (h : Runs step ok s ls u) : Runs step' ok' (f s) ls (f u) := by
  induction h with
  | nil => exact nil
  | snoc _ hl hstep ih =>
    apply ih.snoc (hok _ _ hl)
    rw [hf, hstep]
    rfl

end Runs

theorem runs_of_check {step : L → S → Option S} {ok : S → L → Prop} [∀ s l, Decidable (ok s l)]
    {ls : List L} {s u : S} (h : check step ok ls s = some u) : Runs step ok s ls u := by
  induction ls generalizing s with
  | nil =>
    cases h
    exact .nil
  | cons l ls ih =>
    rw [check] at h
    split at h
    · rename_i hl
      obtain ⟨t, ht, hrest⟩ := Option.bind_eq_some_iff.mp h
      exact (Runs.single hl ht).trans (ih hrest)
    · cases h

theorem runs_get {step : L → S → Option S} {ok : S → L → Prop} [∀ s l, Decidable (ok s l)]
    {ls : List L} {s : S} (h : (check step ok ls s).isSome) :
    Runs step ok s ls ((check step ok ls s).get h) :=
  runs_of_check (Option.some_get h).symm

end Transition
