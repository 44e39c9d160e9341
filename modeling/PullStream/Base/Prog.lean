import Mathlib.Logic.Basic
/-!
# Programs over a set of calls

`Prog C R α` is a program that performs calls `c : C` to its environment, each answered by a value of
`R c`, and returns an `α`: the free monad over the calls. The text of a program says nothing about what
a call does, so one program can be run on its own (`Prog.run`, against a handler) and one call at a time
among other threads (`Prog.view`).

`Calls P`, `Always P` and `Follows P N` say that a program makes no call that breaks `P`. In the second `P`
also sees what the program does with the answer, and in the third what `P` allows depends on what has become
known, which grows with the answers and with what others do.

`subst f` carries every call of a program out by a program over other calls.

A thread need not be represented by its remaining program. Any type `T` with a `view : T → View C R α T`
will do, and `Represents` says that two representations take the same calls and return the same values.
-/

/-- Programs that perform the calls `C` and return an `α`. -/
inductive Prog (C : Type) (R : C → Type) (α : Type) : Type where
  | ret (a : α)
  | call (c : C) (k : R c → Prog C R α)

/-- What a thread does next: return, or perform a call and go on with the answer. -/
inductive View (C : Type) (R : C → Type) (α T : Type) : Type where
  | ret (a : α)
  | call (c : C) (k : R c → T)

namespace View

variable {C : Type} {R : C → Type} {α T T' : Type}

def map (f : T → T') : View C R α T → View C R α T'
  | .ret a => .ret a
  | .call c k => .call c fun r => f (k r)

/-- The call performed next, if any. -/
def call? : View C R α T → Option C
  | .ret _ => none
  | .call c _ => some c

@[simp] theorem call?_map (f : T → T') (v : View C R α T) : (v.map f).call? = v.call? := by
  cases v <;> rfl

end View

/-- `f` carries the threads seen by `v` to threads seen by `v'` that do the same. -/
def Represents {C : Type} {R : C → Type} {α T T' : Type} (v : T → View C R α T)
    (v' : T' → View C R α T') (f : T → T') : Prop :=
  ∀ t, v' (f t) = (v t).map f

namespace Prog

variable {C C' : Type} {R : C → Type} {R' : C' → Type} {α β σ : Type}

def bind : Prog C R α → (α → Prog C R β) → Prog C R β
  | .ret a, f => f a
  | .call c k, f => .call c fun r => bind (k r) f

instance : Monad (Prog C R) where
  pure := .ret
  bind := bind

/-- The program that performs one call and returns its answer. -/
def perform (c : C) : Prog C R (R c) := .call c .ret

@[simp] theorem pure_def (a : α) : (pure a : Prog C R α) = .ret a := rfl

@[simp] theorem ret_bind (a : α) (f : α → Prog C R β) : (Prog.ret a >>= f) = f a := rfl

@[simp] theorem call_bind (c : C) (k : R c → Prog C R α) (f : α → Prog C R β) :
    (Prog.call c k >>= f) = .call c fun r => k r >>= f := rfl

theorem assoc {γ : Type} (x : Prog C R α) (f : α → Prog C R β) (g : β → Prog C R γ) :
    (x >>= f) >>= g = x >>= fun a => f a >>= g := by
  induction x with
  | ret a => rfl
  | call c k ih => exact congrArg (call c) (funext ih)

/-- Every call that the program can come to make satisfies `P`. -/
def Calls (P : C → Prop) : Prog C R α → Prop
  | .ret _ => True
  | .call c k => P c ∧ ∀ x, Calls P (k x)

theorem calls_bind {P : C → Prop} {p : Prog C R α} {f : α → Prog C R β} (hp : p.Calls P)
    (hf : ∀ a, (f a).Calls P) : (p >>= f).Calls P := by
  induction p with
  | ret a => exact hf a
  | call c k ih => exact ⟨hp.1, fun x => ih x (hp.2 x)⟩

theorem calls_perform {P : C → Prop} {c : C} {f : R c → Prog C R α} (hc : P c) (hf : ∀ x, (f x).Calls P) :
    (perform c >>= f).Calls P := ⟨hc, hf⟩

theorem Calls.mono {P Q : C → Prop} {p : Prog C R α} (hPQ : ∀ c, P c → Q c) (h : p.Calls P) : p.Calls Q := by
  induction p with
  | ret a => trivial
  | call c k ih => exact ⟨hPQ c h.1, fun x => ih x (h.2 x)⟩

theorem calls_of_forall {P : C → Prop} (h : ∀ c, P c) (p : Prog C R α) : p.Calls P := by
  induction p with
  | ret a => trivial
  | call c k ih => exact ⟨h c, ih⟩

/-- Every call of a program is carried out by `f`. -/
def subst (f : (c : C) → Prog C' R' (R c)) : Prog C R α → Prog C' R' α
  | .ret a => .ret a
  | .call c k => f c >>= fun x => subst f (k x)

theorem calls_subst {P : C → Prop} {P' : C' → Prop} {f : (c : C) → Prog C' R' (R c)} {p : Prog C R α}
    (hf : ∀ c, P c → (f c).Calls P') (hp : p.Calls P) : (subst f p).Calls P' := by
  induction p with
  | ret a => trivial
  | call c k ih => exact calls_bind (hf c hp.1) fun x => ih x (hp.2 x)

/-- At every call that the program can come to make, `P` holds of the call and of what is done with the answer. -/
def Always (P : (c : C) → (R c → Prog C R α) → Prop) : Prog C R α → Prop
  | .ret _ => True
  | .call c k => P c k ∧ ∀ x, Always P (k x)

/-- The program keeps to `P` whatever happens around it: `s` is what is known of the surroundings at first,
and `N s c x s'` says how this may have changed when the call `c` has been answered with `x`. -/
def Follows (P : σ → C → Prop) (N : σ → (c : C) → R c → σ → Prop) : σ → Prog C R α → Prop
  | _, .ret _ => True
  | s, .call c k => P s c ∧ ∀ x s', N s c x s' → Follows P N s' (k x)

section

variable {P : σ → C → Prop} {N : σ → (c : C) → R c → σ → Prop} {s s' : σ}

theorem follows_bind {p : Prog C R α} {f : α → Prog C R β} (hp : p.Follows P N s)
    (hf : ∀ a s', (f a).Follows P N s') : (p >>= f).Follows P N s := by
  induction p generalizing s with
  | ret a => exact hf a s
  | call c k ih => exact ⟨hp.1, fun x s' hx => ih x (hp.2 x s' hx)⟩

theorem Follows.mono {p : Prog C R α} (hP : ∀ c, P s c → P s' c) (hN : ∀ c x t, N s' c x t → N s c x t)
    (h : p.Follows P N s) : p.Follows P N s' := by
  cases p with
  | ret a => trivial
  | call c k => exact ⟨hP c h.1, fun x t hx => h.2 x t (hN c x t hx)⟩

end

/-- A program seen as a thread. -/
def view : Prog C R α → View C R α (Prog C R α)
  | .ret a => .ret a
  | .call c k => .call c k

/-! ### Running a program on its own -/

/-- Run a program alone, the calls answered by a handler that keeps the state `σ`. -/
def run (handle : (c : C) → σ → Option (R c × σ)) : Prog C R α → σ → Option (α × σ)
  | .ret a, s => some (a, s)
  | .call c k, s => (handle c s).bind fun x => run handle (k x.1) x.2

variable (handle : (c : C) → σ → Option (R c × σ))

theorem run_call {c : C} {k : R c → Prog C R α} {s : σ} {x : R c × σ} (h : handle c s = some x) :
    run handle (.call c k) s = run handle (k x.1) x.2 := by
  rw [run, h, Option.bind_some]

section

variable {handle handle' : (c : C) → σ → Option (R c × σ)} {P : C → Prop} {I : σ → Prop} {p : Prog C R α} {s : σ}

theorem run_keeps (hI : ∀ c s x, P c → I s → handle c s = some x → I x.2) (hp : p.Calls P) (hs : I s)
    {x : α × σ} (h : run handle p s = some x) : I x.2 := by
  induction p generalizing s with
  | ret a =>
    cases h
    exact hs
  | call c k ih =>
    obtain ⟨y, hy, hrun⟩ := Option.bind_eq_some_iff.mp h
    exact ih y.1 (hp.2 y.1) (hI c s y hp.1 hs hy) hrun

theorem run_congr (hI : ∀ c s x, P c → I s → handle c s = some x → I x.2)
    (heq : ∀ c s, I s → handle' c s = handle c s) (hp : p.Calls P) (hs : I s) :
    run handle' p s = run handle p s := by
  induction p generalizing s with
  | ret a => rfl
  | call c k ih =>
    rw [run, run, heq c s hs]
    cases hy : handle c s with
    | none => rfl
    | some y => exact ih y.1 (hp.2 y.1) (hI c s y hp.1 hs hy)

end

end Prog
