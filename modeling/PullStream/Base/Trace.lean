import PullStream.Base.Prog
/-!
# Traces of programs

`Trace p l a`: the program `p` makes the calls of the list `l` one after another, each answered as the list
says, and returns `a`. A theorem about all traces is one about all answers that the calls can get.

* `trace_ret`, `trace_call` and `trace_perform` compute the traces of a program from the outside in, `trace_bind`
  those of one program after another;
* `forall_of_trace`: what holds of every call that a program can come to make;
* `trace_of_ret` and `trace_of_call` do so for a program given by a point of another representation.
-/

namespace Prog

variable {C : Type} {R : C → Type} {α β : Type}

inductive Trace : Prog C R α → List ((c : C) × R c) → α → Prop
  | ret (a : α) : Trace (.ret a) [] a
  | call {c : C} {k : R c → Prog C R α} {x : R c} {l : List ((c : C) × R c)} {a : α} (h : Trace (k x) l a) :
      Trace (.call c k) (⟨c, x⟩ :: l) a

variable {l : List ((c : C) × R c)} {a : α}

theorem trace_ret {b : α} : Trace (.ret b : Prog C R α) l a ↔ l = [] ∧ a = b := by
  constructor
  · rintro ⟨⟩
    exact ⟨rfl, rfl⟩
  · rintro ⟨rfl, rfl⟩
    exact .ret _

theorem trace_call {c : C} {k : R c → Prog C R α} :
    Trace (.call c k) l a ↔ ∃ x l', l = ⟨c, x⟩ :: l' ∧ Trace (k x) l' a := by
  constructor
  · rintro ⟨⟩
    exact ⟨_, _, rfl, ‹_›⟩
  · rintro ⟨x, l', rfl, h⟩
    exact .call h

theorem trace_perform {c : C} {f : R c → Prog C R α} :
    Trace (perform c >>= f) l a ↔ ∃ x l', l = ⟨c, x⟩ :: l' ∧ Trace (f x) l' a :=
  trace_call

theorem trace_bind {p : Prog C R α} {f : α → Prog C R β} {b : β} :
    Trace (p >>= f) l b ↔ ∃ l₁ l₂ a, l = l₁ ++ l₂ ∧ Trace p l₁ a ∧ Trace (f a) l₂ b := by
  induction p generalizing l with
  | ret a =>
    constructor
    · intro h
      exact ⟨[], l, a, rfl, .ret a, h⟩
    · rintro ⟨l₁, l₂, a', rfl, h₁, h₂⟩
      obtain ⟨rfl, rfl⟩ := trace_ret.mp h₁
      exact h₂
  | call c k ih =>
    rw [call_bind, trace_call]
    constructor
    · rintro ⟨x, l', rfl, h⟩
      obtain ⟨l₁, l₂, a, rfl, h₁, h₂⟩ := (ih x).mp h
      exact ⟨⟨c, x⟩ :: l₁, l₂, a, rfl, .call h₁, h₂⟩
    · rintro ⟨l₁, l₂, a, rfl, h₁, h₂⟩
      obtain ⟨x, l', rfl, hx⟩ := trace_call.mp h₁
      exact ⟨x, l' ++ l₂, rfl, (ih x).mpr ⟨l', l₂, a, rfl, hx, h₂⟩⟩

theorem forall_of_trace {P : C → Prop} {p : Prog C R α} (hp : p.Calls P) (h : Trace p l a) : ∀ x ∈ l, P x.1 := by
  induction h with
  | ret a => exact nofun
  | call _ ih => exact List.forall_mem_cons.mpr ⟨hp.1, ih (hp.2 _)⟩

section

variable {T : Type} {v : T → View C R α T} {f : T → Prog C R α} (hf : Represents v view f) {t : T}
include hf

theorem trace_of_ret {b : α} (hv : v t = .ret b) : Trace (f t) l a ↔ l = [] ∧ a = b := by
  have hview := hf t
  rw [hv] at hview
  cases hp : f t with
  | ret b' =>
    rw [hp] at hview
    cases hview
    exact trace_ret
  | call c k =>
    rw [hp] at hview
    cases hview

theorem trace_of_call {c : C} {k : R c → T} (hv : v t = .call c k) :
    Trace (f t) l a ↔ ∃ x l', l = ⟨c, x⟩ :: l' ∧ Trace (f (k x)) l' a := by
  have hview := hf t
  rw [hv] at hview
  cases hp : f t with
  | ret b =>
    rw [hp] at hview
    cases hview
  | call c' k' =>
    rw [hp] at hview
    cases hview
    exact trace_call

end

end Prog
