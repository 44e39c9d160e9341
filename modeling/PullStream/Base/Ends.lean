import PullStream.Base.Prog
/-!
# How programs end

`p.Exits P`: whatever its calls are answered with, the program `p` makes only calls that satisfy `P`, and it does not
return. So each run of it ends at a call that is not answered. `p.Returns a` says that there are answers with which it
returns `a`, and `p.Passes P a` that moreover it makes only calls that satisfy `P`.

* `exits_bind`: one program after another, the second with every value that the first can return;
* `exits_bind_of_passes`: it is the second that matters after a program that passes;
* `passes_bind` and `passes_perform` put together programs that pass;
* `lift` makes a program one over other calls.
-/

namespace Prog

variable {C C' : Type} {R : C → Type} {R' : C' → Type} {α β : Type}

def Exits (P : C → Prop) : Prog C R α → Prop
  | .ret _ => False
  | .call c k => P c ∧ ∀ x, Exits P (k x)

def Returns : Prog C R α → α → Prop
  | .ret b, a => b = a
  | .call _ k, a => ∃ x, Returns (k x) a

structure Passes (P : C → Prop) (p : Prog C R α) (a : α) : Prop where
  calls : p.Calls P
  returns : p.Returns a

variable {P : C → Prop} {p : Prog C R α} {f : α → Prog C R β} {a : α} {b : β}

theorem exits_bind : (p >>= f).Exits P ↔ p.Calls P ∧ ∀ a, p.Returns a → (f a).Exits P := by
  induction p with
  | ret a =>
    constructor
    · intro h
      exact ⟨trivial, fun b hb => hb ▸ h⟩
    · rintro ⟨-, h⟩
      exact h a rfl
  | call c k ih =>
    constructor
    · rintro ⟨hc, h⟩
      exact ⟨⟨hc, fun x => ((ih x).mp (h x)).1⟩, fun a ⟨x, hx⟩ => ((ih x).mp (h x)).2 a hx⟩
    · rintro ⟨⟨hc, hk⟩, h⟩
      exact ⟨hc, fun x => (ih x).mpr ⟨hk x, fun a ha => h a ⟨x, ha⟩⟩⟩

theorem returns_bind (hp : p.Returns a) (hf : (f a).Returns b) : (p >>= f).Returns b := by
  induction p with
  | ret a' => exact hp ▸ hf
  | call c k ih =>
    obtain ⟨x, hx⟩ := hp
    exact ⟨x, ih x hx⟩

/-- **After a program that passes, it is the next that matters.** -/
theorem exits_bind_of_passes {Q : Prop} (hp : p.Passes P a) (hf : ∀ a, (f a).Exits P ↔ Q) :
    (p >>= f).Exits P ↔ Q := by
  rw [exits_bind]
  constructor
  · rintro ⟨-, h⟩
    exact (hf a).mp (h a hp.returns)
  · intro hQ
    exact ⟨hp.calls, fun a _ => (hf a).mpr hQ⟩

theorem passes_ret : (.ret a : Prog C R α).Passes P a := ⟨trivial, rfl⟩

theorem passes_bind (hp : p.Passes P a) (hf : ∀ a, (f a).Passes P b) : (p >>= f).Passes P b :=
  ⟨calls_bind hp.calls fun a => (hf a).calls, returns_bind hp.returns (hf a).returns⟩

theorem passes_perform {c : C} {f : R c → Prog C R β} (hc : P c) (hcalls : ∀ x, (f x).Calls P) (x : R c)
    (hf : (f x).Returns b) : (perform c >>= f).Passes P b :=
  ⟨⟨hc, hcalls⟩, x, hf⟩

/-- The program with its calls taken for those of `C'`. -/
def lift (f : C → C') (g : (c : C) → R' (f c) → R c) : Prog C R α → Prog C' R' α
  | .ret a => .ret a
  | .call c k => .call (f c) fun x => lift f g (k (g c x))

end Prog
