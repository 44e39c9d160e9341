import PullStream.Base.Exec
/-!
# Preconditions of programs

`pre handle ok good p Q s` is the weakest precondition of the program `p`: run alone from the state `s`, whatever
the calls come to that `ok` allows, every call meets `good` in the state it is made in, and what is returned and the
state at the end are in `Q`. It speaks of every call, also of those of a run that never ends because some later call
has no answer.

* `pre_perform` and `pre_bind` compute it from the outside in, and `pre_mono` weakens `Q`;
* `exec_of_pre`: a run of a program that has the precondition.
-/

namespace Prog

variable {C : Type} {R : C → Type} {α β σ X : Type}

def pre (handle : (c : C) → X → σ → Option (R c × σ)) (ok good : C → X → σ → Bool) :
    Prog C R α → (α → σ → Prop) → σ → Prop
  | .ret a, Q, s => Q a s
  | .call c k, Q, s => ∀ x y, ok c x s = true → handle c x s = some y →
      good c x s = true ∧ pre handle ok good (k y.1) Q y.2

variable {handle : (c : C) → X → σ → Option (R c × σ)} {ok good : C → X → σ → Bool} {s : σ}

theorem pre_perform {c : C} {f : R c → Prog C R α} {Q : α → σ → Prop} :
    pre handle ok good (perform c >>= f) Q s ↔ ∀ x y, ok c x s = true → handle c x s = some y →
      good c x s = true ∧ pre handle ok good (f y.1) Q y.2 :=
  Iff.rfl

theorem pre_bind {p : Prog C R α} {f : α → Prog C R β} {Q : β → σ → Prop} :
    pre handle ok good (p >>= f) Q s ↔ pre handle ok good p (fun a => pre handle ok good (f a) Q) s := by
  induction p generalizing s with
  | ret a => exact Iff.rfl
  | call c k ih =>
    refine forall_congr' fun x => forall_congr' fun y => imp_congr_right fun _ => imp_congr_right fun _ => ?_
    exact and_congr_right fun _ => ih y.1

theorem pre_mono {p : Prog C R α} {Q Q' : α → σ → Prop} (hQ : ∀ a u, Q a u → Q' a u)
    (h : pre handle ok good p Q s) : pre handle ok good p Q' s := by
  induction p generalizing s with
  | ret a => exact hQ a s h
  | call c k ih =>
    intro x y hok hy
    obtain ⟨hgood, hrest⟩ := h x y hok hy
    exact ⟨hgood, ih y.1 hrest⟩

theorem exec_of_pre {xs : List X} {p : Prog C R α} {Q : α → σ → Prop} {r : α × σ} (h : pre handle ok good p Q s)
    (hr : exec handle ok xs p s = some r) : exec handle good xs p s = some r ∧ Q r.1 r.2 := by
  induction p generalizing xs s with
  | ret a =>
    obtain ⟨rfl, rfl⟩ := exec_ret.mp hr
    exact ⟨rfl, h⟩
  | call c k ih =>
    obtain ⟨x, xs', y, rfl, hok, hy, hr⟩ := exec_call.mp hr
    obtain ⟨hgood, hrest⟩ := h x y hok hy
    obtain ⟨hexec, hQ⟩ := ih y.1 hrest hr
    exact ⟨exec_call.mpr ⟨x, xs', y, rfl, hgood, hy, hexec⟩, hQ⟩

end Prog
