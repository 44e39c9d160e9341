import PullStream.Base.Prog
/-!
# Programs running alone, the surroundings choosing

`exec handle ok xs p s` runs the program `p` alone from the state `s`. The surroundings choose what each
call comes to: the calls of the run use up the list of choices `xs` in order, each of which must be allowed
by `ok` for the call and the state it is made in. A theorem about all `xs` is one about all ways in which
the calls of `p` can turn out.

* `exec_ret`, `exec_call`, `exec_perform` and `exec_bind` compute a run from the outside in;
* `exec_of_represents` does so for a program given by a point of another representation;
* `exists_exec`: a run exists if every call the program can make has an allowed choice;
* `exec_mono` and `forall_of_exec`: a run under fewer choices is one under more, and has only allowed ones;
* `exec_inv`: what every call keeps holds at the end;
* `exec_split`: when every call either meets a further condition and keeps `I` or leads to `J`, which all calls
  keep, a run ends in `I` if all its calls meet the condition and else in `J`.
-/

namespace Prog

variable {C : Type} {R : C → Type} {α β σ X T : Type}

def exec (handle : (c : C) → X → σ → Option (R c × σ)) (ok : C → X → σ → Bool) :
    List X → Prog C R α → σ → Option (α × σ)
  | [], .ret a, s => some (a, s)
  | x :: xs, .call c k, s =>
    if ok c x s then (handle c x s).bind fun y => exec handle ok xs (k y.1) y.2 else none
  | _, _, _ => none

variable {handle : (c : C) → X → σ → Option (R c × σ)} {ok : C → X → σ → Bool} {xs : List X} {s : σ}

theorem exec_ret {a : α} {r : α × σ} :
    exec handle ok xs (.ret a) s = some r ↔ xs = [] ∧ r = (a, s) := by
  cases xs with
  | nil => simp [exec, eq_comm]
  | cons x xs => simp [exec]

theorem exec_call {c : C} {k : R c → Prog C R α} {r : α × σ} :
    exec handle ok xs (.call c k) s = some r ↔
      ∃ x xs' y, xs = x :: xs' ∧ ok c x s = true ∧ handle c x s = some y ∧
        exec handle ok xs' (k y.1) y.2 = some r := by
  cases xs with
  | nil => simp [exec]
  | cons x xs =>
    simp only [exec]
    constructor
    · intro h
      split at h
      · rename_i hok
        obtain ⟨y, hy, hrest⟩ := Option.bind_eq_some_iff.mp h
        exact ⟨x, xs, y, rfl, hok, hy, hrest⟩
      · cases h
    · rintro ⟨x', xs', y, hxs, hok, hy, hrest⟩
      obtain ⟨rfl, rfl⟩ := List.cons.inj hxs
      rw [if_pos hok, hy]
      exact hrest

theorem exec_perform {c : C} {f : R c → Prog C R α} {r : α × σ} :
    exec handle ok xs (perform c >>= f) s = some r ↔
      ∃ x xs' y, xs = x :: xs' ∧ ok c x s = true ∧ handle c x s = some y ∧
        exec handle ok xs' (f y.1) y.2 = some r :=
  exec_call

theorem exec_bind {p : Prog C R α} {f : α → Prog C R β} {r : β × σ} :
    exec handle ok xs (p >>= f) s = some r ↔ ∃ xs₁ xs₂ a u, xs = xs₁ ++ xs₂ ∧
      exec handle ok xs₁ p s = some (a, u) ∧ exec handle ok xs₂ (f a) u = some r := by
  induction p generalizing xs s with
  | ret a =>
    constructor
    · intro h
      exact ⟨[], xs, a, s, rfl, rfl, h⟩
    · rintro ⟨xs₁, xs₂, a', u, rfl, h₁, h₂⟩
      obtain ⟨rfl, h₁⟩ := exec_ret.mp h₁
      cases h₁
      exact h₂
  | call c k ih =>
    rw [call_bind, exec_call]
    constructor
    · rintro ⟨x, xs', y, rfl, hok, hy, h⟩
      obtain ⟨xs₁, xs₂, a, u, rfl, h₁, h₂⟩ := (ih y.1).mp h
      exact ⟨x :: xs₁, xs₂, a, u, rfl, exec_call.mpr ⟨x, xs₁, y, rfl, hok, hy, h₁⟩, h₂⟩
    · rintro ⟨xs₁, xs₂, a, u, rfl, h₁, h₂⟩
      obtain ⟨x, xs', y, rfl, hok, hy, h₁⟩ := exec_call.mp h₁
      exact ⟨x, xs' ++ xs₂, y, rfl, hok, hy, (ih y.1).mpr ⟨xs', xs₂, a, u, rfl, h₁, h₂⟩⟩

theorem exec_of_represents {v : T → View C R α T} {f : T → Prog C R α} (hf : Represents v view f) {t : T}
    {r : α × σ} (h : exec handle ok xs (f t) s = some r) :
    (∃ a, v t = .ret a ∧ xs = [] ∧ r = (a, s)) ∨
      ∃ c k x xs' y, v t = .call c k ∧ xs = x :: xs' ∧ ok c x s = true ∧ handle c x s = some y ∧
        exec handle ok xs' (f (k y.1)) y.2 = some r := by
  have hview := hf t
  cases hv : v t with
  | ret a =>
    rw [hv] at hview
    cases hp : f t with
    | ret b =>
      rw [hp] at hview h
      cases hview
      obtain ⟨hxs, hr⟩ := exec_ret.mp h
      exact .inl ⟨a, rfl, hxs, hr⟩
    | call c k =>
      rw [hp] at hview
      cases hview
  | call c k =>
    rw [hv] at hview
    cases hp : f t with
    | ret b =>
      rw [hp] at hview
      cases hview
    | call c' k' =>
      rw [hp] at hview h
      cases hview
      obtain ⟨x, xs', y, hxs, hok, hy, hrest⟩ := exec_call.mp h
      exact .inr ⟨c, k, x, xs', y, rfl, hxs, hok, hy, hrest⟩

theorem exists_exec {P : C → Prop} (hP : ∀ c s, P c → ∃ x y, ok c x s = true ∧ handle c x s = some y)
    {p : Prog C R α} (hp : p.Calls P) (s : σ) : ∃ xs r, exec handle ok xs p s = some r := by
  induction p generalizing s with
  | ret a => exact ⟨[], _, rfl⟩
  | call c k ih =>
    obtain ⟨x, y, hok, hy⟩ := hP c s hp.1
    obtain ⟨xs, r, hr⟩ := ih y.1 (hp.2 y.1) y.2
    exact ⟨x :: xs, r, exec_call.mpr ⟨x, xs, y, rfl, hok, hy, hr⟩⟩

theorem exec_mono {ok' : C → X → σ → Bool} (hok : ∀ c x s, ok c x s = true → ok' c x s = true) {p : Prog C R α}
    {r : α × σ} (h : exec handle ok xs p s = some r) : exec handle ok' xs p s = some r := by
  induction p generalizing xs s with
  | ret a =>
    rw [exec_ret] at h ⊢
    exact h
  | call c k ih =>
    rw [exec_call] at h ⊢
    obtain ⟨x, xs', y, hxs, hx, hy, h⟩ := h
    exact ⟨x, xs', y, hxs, hok c x s hx, hy, ih y.1 h⟩

theorem forall_of_exec {Q : X → Prop} (hQ : ∀ c x s, ok c x s = true → Q x) {p : Prog C R α} {r : α × σ}
    (h : exec handle ok xs p s = some r) : ∀ x ∈ xs, Q x := by
  induction p generalizing xs s with
  | ret a =>
    obtain ⟨rfl, -⟩ := exec_ret.mp h
    exact nofun
  | call c k ih =>
    obtain ⟨x, xs', y, rfl, hx, -, h⟩ := exec_call.mp h
    exact List.forall_mem_cons.mpr ⟨hQ c x s hx, ih y.1 h⟩

/-- **What every call keeps holds at the end.** -/
theorem exec_inv {P : C → Prop} (I : σ → Prop)
    (hI : ∀ c x s y, P c → I s → ok c x s = true → handle c x s = some y → I y.2) {p : Prog C R α} {r : α × σ}
    (hp : p.Calls P) (hs : I s) (h : exec handle ok xs p s = some r) : I r.2 := by
  induction p generalizing xs s with
  | ret a =>
    obtain ⟨-, rfl⟩ := exec_ret.mp h
    exact hs
  | call c k ih =>
    obtain ⟨x, xs', y, rfl, hok, hy, h⟩ := exec_call.mp h
    exact ih y.1 (hp.2 y.1) (hI c x s y hp.1 hs hok hy) h

theorem exec_split {P : C → Prop} {ok' : C → X → σ → Bool} (I J : σ → Prop)
    (hI : ∀ c x s y, P c → I s → ok c x s = true → handle c x s = some y → (ok' c x s = true ∧ I y.2) ∨ J y.2)
    (hJ : ∀ c x s y, P c → J s → ok c x s = true → handle c x s = some y → J y.2) {p : Prog C R α} {r : α × σ}
    (hp : p.Calls P) (hs : I s) (h : exec handle ok xs p s = some r) :
    (exec handle ok' xs p s = some r ∧ I r.2) ∨ J r.2 := by
  induction p generalizing xs s with
  | ret a =>
    obtain ⟨rfl, rfl⟩ := exec_ret.mp h
    exact .inl ⟨rfl, hs⟩
  | call c k ih =>
    obtain ⟨x, xs', y, rfl, hok, hy, h⟩ := exec_call.mp h
    rcases hI c x s y hp.1 hs hok hy with ⟨hok', hy'⟩ | hy'
    · refine (ih y.1 (hp.2 y.1) hy' h).imp_left fun ⟨h, hr⟩ => ⟨?_, hr⟩
      exact exec_call.mpr ⟨x, xs', y, rfl, hok', hy, h⟩
    · exact .inr (exec_inv J hJ (hp.2 y.1) hy' h)

end Prog
