import PullStream.Base.Prog
/-!
# Calls that are carried out step by step

A program over calls `C` may run on a lower level, where each call `c` is carried out by a program `impl c` of
operations of two kinds: those of `L` touch only what belongs to the thread (its memory, `M`), those of `D` touch what
all threads share (`W`). `Prog.subst impl p` is `p` with every call carried out so, and a `Level` says what the
operations do, what the calls are taken to do at once, and how the shared states of the two levels belong together.

`Prog.wp` is the weakest precondition of a program of the lower level, where a `Spec` says what may come of a shared
operation, and of a trace variable with it. An `impl c` may be taken for the call `c` if it makes one shared operation,
which does what `c` does, and nothing else that anybody sees. The surroundings may also choose that an operation does
only a part of the call, which is then out of step, and whose further operations need only be such that they can be made
(`Level.spec`, `Level.Sound`). A thread that runs `subst impl p` begins in step with one that runs `p`, whatever others
do in between, and stays so until only a part is done (`Level.InStep`):

* `inStep_subst`: they begin in step;
* `InStep.ret`: when the lower one has returned, its memory is idle, and the upper one has returned the same value;
* `InStep.own`: an operation of the lower one on its own memory can be made, and the upper one stays where it is;
* `InStep.shared`: with a shared operation of the lower one the upper one makes its call;
* `InStep.able`: a shared operation can be made, in step or not.
-/

namespace Prog

variable {L D : Type} {RL : L → Type} {RD : D → Type} {M G α β : Type}

/-- Programs of the lower level. -/
abbrev Low (RL : L → Type) (RD : D → Type) := Prog (L ⊕ D) (Sum.elim RL RD)

/-- For each shared operation its precondition, given what has to hold of its answer and behind it. -/
abbrev Spec (RD : D → Type) (M G : Type) := (op : D) → M → G → (RD op → M → G → Prop) → Prop

/-- What holds under one condition holds under a weaker one. -/
def Spec.Mono (spec : Spec RD M G) : Prop :=
  ∀ op m g K K', (∀ r m' g', K r m' g' → K' r m' g') → spec op m g K → spec op m g K'

/-- **The weakest precondition**: every operation on the memory can be made, every shared operation is made where its
precondition holds, and the program ends in `Q`. -/
def wp (own : (op : L) → M → Option (RL op × M)) (spec : Spec RD M G) (Q : α → M → G → Prop) :
    Low RL RD α → M → G → Prop
  | .ret a, m, g => Q a m g
  | .call (.inl op) k, m, g => ∃ y, own op m = some y ∧ wp own spec Q (k y.1) y.2 g
  | .call (.inr op) k, m, g => spec op m g fun r m' g' => wp own spec Q (k r) m' g'

/-- The program makes operations of its own only, and ends in `Q`. -/
def settles (own : (op : L) → M → Option (RL op × M)) (Q : α → M → Prop) (p : Low RL RD α) (m : M) : Prop :=
  wp own (fun _ _ (_ : Unit) _ => False) (fun a m _ => Q a m) p m ()

variable {own : (op : L) → M → Option (RL op × M)} {spec : Spec RD M G} {m : M} {g : G}

theorem wp_mono (hspec : spec.Mono) {Q Q' : α → M → G → Prop} {p : Low RL RD α} (hQ : ∀ a m g, Q a m g → Q' a m g)
    (h : wp own spec Q p m g) : wp own spec Q' p m g := by
  induction p generalizing m g with
  | ret a => exact hQ a m g h
  | call op k ih =>
    cases op with
    | inl op =>
      obtain ⟨y, hy, h⟩ := h
      exact ⟨y, hy, ih y.1 h⟩
    | inr op => exact hspec op m g _ _ (fun r m' g' => ih r) h

theorem wp_bind (hspec : spec.Mono) {Q : β → M → G → Prop} {p : Low RL RD α} {f : α → Low RL RD β} :
    wp own spec Q (p >>= f) m g ↔ wp own spec (fun a m g => wp own spec Q (f a) m g) p m g := by
  induction p generalizing m g with
  | ret a => exact Iff.rfl
  | call op k ih =>
    cases op with
    | inl op => exact exists_congr fun y => and_congr_right fun _ => ih y.1
    | inr op => exact ⟨hspec op m g _ _ fun r _ _ => (ih r).mp, hspec op m g _ _ fun r _ _ => (ih r).mpr⟩

theorem mono_false : Spec.Mono (fun _ _ (_ : Unit) _ => False : Spec RD M Unit) := fun _ _ _ _ _ _ => id

theorem settles_bind {Q : β → M → Prop} {p : Low RL RD α} {f : α → Low RL RD β} :
    settles own Q (p >>= f) m ↔ settles own (fun a m => settles own Q (f a) m) p m := wp_bind mono_false

theorem settles_mono {Q Q' : α → M → Prop} {p : Low RL RD α} (hQ : ∀ a m, Q a m → Q' a m) (h : settles own Q p m) :
    settles own Q' p m := wp_mono mono_false (fun a m _ => hQ a m) h

theorem wp_of_settles {Q : α → M → Prop} {R : α → M → G → Prop} {p : Low RL RD α} (h : settles own Q p m)
    (hR : ∀ a m, Q a m → R a m g) : wp own spec R p m g := by
  induction p generalizing m with
  | ret a => exact hR a m h
  | call op k ih =>
    cases op with
    | inl op =>
      obtain ⟨y, hy, h⟩ := h
      exact ⟨y, hy, ih y.1 h⟩
    | inr op => exact h.elim

theorem wp_settles_bind (hspec : spec.Mono) {Q : α → M → Prop} {R : β → M → G → Prop} {p : Low RL RD α}
    {f : α → Low RL RD β} (h : settles own Q p m) (hR : ∀ a m, Q a m → wp own spec R (f a) m g) :
    wp own spec R (p >>= f) m g := (wp_bind hspec).mpr (wp_of_settles h hR)

end Prog

open Prog

/-- How far the lower level has come with a call: not to a shared operation, to the one that does what the call does and
has answered it, or to one that does only a part of it. -/
inductive Phase (ρ : Type) where
  | before
  | done (a : ρ)
  | lost

/-- A call that has been carried out in one operation has been answered so. -/
def Phase.Agrees {ρ : Type} (b : ρ) : Phase ρ → Prop
  | .before => False
  | .done a => b = a
  | .lost => True

/-- The two levels. -/
structure Level (C : Type) (R : C → Type) (L D : Type) (RL : L → Type) (RD : D → Type) (M W σ X : Type) where
  /-- what an operation on the memory of a thread does and answers -/
  own : (op : L) → M → Option (RL op × M)
  /-- what a shared operation does and answers, the surroundings choosing -/
  shared : (op : D) → X → M → W → Option (RD op × M × W)
  /-- the choices with which an operation does only a part of a call -/
  part : X → Bool
  /-- what a call does and answers at once -/
  answer : (c : C) → X → σ → Option (R c × σ)
  /-- the shared state of the lower level stands for that of the upper one -/
  rep : W → σ → Prop
  /-- the memory of a thread that is not carrying out a call -/
  idle : M → Prop
  /-- the operations and the calls by which everything ends -/
  ends : D → Prop
  endsCall : C → Prop
  impl : (c : C) → Low RL RD (R c)

namespace Level

variable {C L D : Type} {R : C → Type} {RL : L → Type} {RD : D → Type} {M W σ X α β : Type}
  (Λ : Level C R L D RL RD M W σ X)

/-- A shared operation ends everything, or some choice of the surroundings lets it be made, whatever is shared. -/
def able (op : D) (m : M) : Prop := Λ.ends op ∨ ∃ x, ∀ w, (Λ.shared op x m w).isSome

/-- What may come of a shared operation on the way through the call `c`. The first does what the call does, or ends
everything as it does, unless it is chosen that it does a part. -/
def spec (c : C) : Spec RD M (Phase (R c))
  | op, m, .before, K => (Λ.ends op → Λ.endsCall c) ∧ Λ.able op m ∧ ∀ x w s y, Λ.rep w s → Λ.shared op x m w = some y →
      (Λ.part x = false → ∃ a s', Λ.answer c x s = some (a, s') ∧ Λ.rep y.2.2 s' ∧ K y.1 y.2.1 (.done a)) ∧
      (Λ.part x = true → (∃ s', Λ.rep y.2.2 s') ∧ K y.1 y.2.1 .lost)
  | _, _, .done _, _ => False
  | op, m, .lost, K => Λ.able op m ∧ ∀ x w s y, Λ.rep w s → Λ.shared op x m w = some y →
      (∃ s', Λ.rep y.2.2 s') ∧ K y.1 y.2.1 .lost

/-- The program carries out the call `c`, or the rest of it, and ends in `Q`. -/
def carries (c : C) (Q : α → M → Phase (R c) → Prop) (p : Low RL RD α) (m : M) (g : Phase (R c)) : Prop :=
  wp Λ.own (Λ.spec c) Q p m g

variable {Λ} {m : M} {c : C} {g : Phase (R c)}

theorem spec_mono (c : C) : (Λ.spec c).Mono := by
  intro op m g K K' hK h
  cases g with
  | before =>
    obtain ⟨hends, hable, h⟩ := h
    refine ⟨hends, hable, fun x w s y hrep hy => ⟨fun hx => ?_, fun hx => ?_⟩⟩
    · obtain ⟨a, s', ha, hrep', hrest⟩ := (h x w s y hrep hy).1 hx
      exact ⟨a, s', ha, hrep', hK _ _ _ hrest⟩
    · exact ((h x w s y hrep hy).2 hx).imp_right (hK _ _ _)
  | done a => exact h
  | lost => exact ⟨h.1, fun x w s y hrep hy => (h.2 x w s y hrep hy).imp_right (hK _ _ _)⟩

theorem carries_mono {Q Q' : α → M → Phase (R c) → Prop} {p : Low RL RD α} (hQ : ∀ a m g, Q a m g → Q' a m g)
    (h : Λ.carries c Q p m g) : Λ.carries c Q' p m g := wp_mono (spec_mono c) hQ h

theorem carries_bind {Q : β → M → Phase (R c) → Prop} {p : Low RL RD α} {f : α → Low RL RD β} :
    Λ.carries c Q (p >>= f) m g ↔ Λ.carries c (fun a m g => Λ.carries c Q (f a) m g) p m g := wp_bind (spec_mono c)

theorem carries_of_settles {P : α → M → Prop} {Q : β → M → Phase (R c) → Prop} {p : Low RL RD α} {f : α → Low RL RD β}
    (h : settles Λ.own P p m) (hQ : ∀ a m, P a m → Λ.carries c Q (f a) m g) : Λ.carries c Q (p >>= f) m g :=
  wp_settles_bind (spec_mono c) h hQ

/-- Every call is carried out, from and to an idle memory. -/
def Sound (Λ : Level C R L D RL RD M W σ X) : Prop :=
  ∀ c m, Λ.idle m → Λ.carries c (fun b m g => g.Agrees b ∧ Λ.idle m) (Λ.impl c) m .before

/-! ### Threads in step -/

/-- What is left of a program that goes on with `k` after the call `c`, unless only a part of the call was done. -/
def rest (c : C) (k : R c → Prog C R α) : Phase (R c) → Option (Prog C R α)
  | .before => some (.call c k)
  | .done a => some (k a)
  | .lost => none

/-- A thread of the lower level, and the one of the upper level that it is in step with, if it is with one. -/
inductive InStep (Λ : Level C R L D RL RD M W σ X) : Low RL RD α → M → Option (Prog C R α) → Prop
  | between {m : M} {p : Prog C R α} {o : Option (Prog C R α)} (h : Λ.idle m) (ho : ∀ p' ∈ o, p' = p) :
      InStep Λ (subst Λ.impl p) m o
  | inside {m : M} {c : C} {k : R c → Prog C R α} {q : Low RL RD (R c)} {g : Phase (R c)} {o : Option (Prog C R α)}
      (h : Λ.carries c (fun b m g => g.Agrees b ∧ Λ.idle m) q m g) (ho : ∀ p ∈ o, rest c k g = some p) :
      InStep Λ (q >>= fun x => subst Λ.impl (k x)) m o

variable {p : Prog C R α} {t : Low RL RD α} {o : Option (Prog C R α)}

theorem inStep_subst (p : Prog C R α) (h : Λ.idle m) : Λ.InStep (subst Λ.impl p) m (some p) :=
  .between h fun _ hp => (Option.some.inj hp).symm

/-- Where a thread can stand: it has returned, or is inside a call. -/
theorem InStep.stage (hΛ : Λ.Sound) (h : Λ.InStep t m o) :
    (∃ a, t = .ret a ∧ Λ.idle m ∧ ∀ p ∈ o, p = .ret a) ∨
      ∃ (c : C) (k : R c → Prog C R α) (g : Phase (R c)) (op : L ⊕ D) (f : Sum.elim RL RD op → Low RL RD (R c)),
        t = (Prog.call op f : Low RL RD (R c)) >>= (fun x => subst Λ.impl (k x)) ∧
          Λ.carries c (fun b m g => g.Agrees b ∧ Λ.idle m) (.call op f) m g ∧ ∀ p ∈ o, rest c k g = some p := by
  have hbetween : ∀ {m} (p : Prog C R α), Λ.idle m → (∀ p' ∈ o, p' = p) →
      (∃ a, subst Λ.impl p = .ret a ∧ Λ.idle m ∧ ∀ p ∈ o, p = .ret a) ∨
      ∃ (c : C) (k : R c → Prog C R α) (g : Phase (R c)) (op : L ⊕ D) (f : Sum.elim RL RD op → Low RL RD (R c)),
        subst Λ.impl p = (Prog.call op f : Low RL RD (R c)) >>= (fun x => subst Λ.impl (k x)) ∧
          Λ.carries c (fun b m g => g.Agrees b ∧ Λ.idle m) (.call op f) m g ∧ ∀ p ∈ o, rest c k g = some p := by
    intro m p hm ho
    cases p with
    | ret a => exact .inl ⟨a, rfl, hm, ho⟩
    | call c k =>
      have himpl := hΛ c m hm
      cases hq : Λ.impl c with
      | ret b =>
        rw [hq] at himpl
        exact himpl.1.elim
      | call op f =>
        rw [hq] at himpl
        refine .inr ⟨c, k, .before, op, f, ?_, himpl, fun p hp => congrArg some (ho p hp).symm⟩
        rw [subst, hq]
  cases h with
  | between hm ho => exact hbetween _ hm ho
  | @inside _ c k q g _ h ho =>
    cases q with
    | ret b =>
      obtain ⟨hb, hm⟩ := h
      refine hbetween (k b) hm fun p hp => ?_
      -- the call is over, in step or not
      cases g with
      | before => exact hb.elim
      | done a =>
        obtain rfl : b = a := hb
        exact (Option.some.inj (ho p hp)).symm
      | lost => cases ho p hp
    | call op f => exact .inr ⟨c, k, g, op, f, rfl, h, ho⟩

theorem InStep.ret (hΛ : Λ.Sound) {a : α} (h : Λ.InStep (.ret a) m o) : Λ.idle m ∧ ∀ p ∈ o, p = .ret a := by
  rcases h.stage hΛ with ⟨b, hb, h⟩ | ⟨c, k, g, op, f, ht, -⟩
  · cases hb
    exact h
  · cases ht

theorem InStep.own (hΛ : Λ.Sound) {op : L} {k : RL op → Low RL RD α} (h : Λ.InStep (.call (.inl op) k) m o) :
    ∃ y, Λ.own op m = some y ∧ Λ.InStep (k y.1) y.2 o := by
  rcases h.stage hΛ with ⟨b, hb, -⟩ | ⟨c, k', g, op', f, ht, hq, ho⟩
  · cases hb
  · cases ht
    obtain ⟨y, hy, hf⟩ := hq
    exact ⟨y, hy, .inside hf ho⟩

/-- **A shared operation** that does not do only a part is the call that the other thread is about to make. -/
theorem InStep.shared (hΛ : Λ.Sound) {op : D} {k : RD op → Low RL RD α} (h : Λ.InStep (.call (.inr op) k) m (some p)) :
    ∃ c k', p = .call c k' ∧ (Λ.ends op → Λ.endsCall c) ∧
      ∀ x w s y, Λ.part x = false → Λ.rep w s → Λ.shared op x m w = some y →
        ∃ a s', Λ.answer c x s = some (a, s') ∧ Λ.rep y.2.2 s' ∧ Λ.InStep (k y.1) y.2.1 (some (k' a)) := by
  rcases h.stage hΛ with ⟨b, hb, -⟩ | ⟨c, k', g, op', f, ht, hq, ho⟩
  · cases hb
  · cases ht
    cases g with
    | before =>
      refine ⟨c, k', (Option.some.inj (ho p rfl)).symm, hq.1, fun x w s y hx hrep hy => ?_⟩
      obtain ⟨a, s', hans, hrep', hf⟩ := (hq.2.2 x w s y hrep hy).1 hx
      exact ⟨a, s', hans, hrep', .inside hf fun _ hp => hp⟩
    | done a => exact hq.elim
    | lost => cases ho p rfl

/-- **A shared operation** can be made, and leaves a shared state that stands for one. -/
theorem InStep.able (hΛ : Λ.Sound) {op : D} {k : RD op → Low RL RD α} (h : Λ.InStep (.call (.inr op) k) m o) :
    Λ.able op m ∧ ∀ x w s y, Λ.rep w s → Λ.shared op x m w = some y →
      (∃ s', Λ.rep y.2.2 s') ∧ Λ.InStep (k y.1) y.2.1 none := by
  rcases h.stage hΛ with ⟨b, hb, -⟩ | ⟨c, k', g, op', f, ht, hq, -⟩
  · cases hb
  · cases ht
    cases g with
    | before =>
      refine ⟨hq.2.1, fun x w s y hrep hy => ?_⟩
      obtain ⟨hwhole, hpart⟩ := hq.2.2 x w s y hrep hy
      cases hx : Λ.part x with
      | false =>
        obtain ⟨a, s', -, hrep', hf⟩ := hwhole hx
        exact ⟨⟨s', hrep'⟩, .inside hf nofun⟩
      | true => exact (hpart hx).imp_right fun hf => .inside hf nofun
    | done a => exact hq.elim
    | lost => exact hq.imp_right fun hall x w s y hrep hy => (hall x w s y hrep hy).imp_right fun hf => .inside hf nofun

end Level
