import PullStream.App.HostStore
import PullStream.Base.Ledger
import PullStream.Base.Run
import Mathlib.Data.Fintype.Basic
/-!
# Registering hosts

Any number of instances call `host_register` on one `host` collection, call by call and in any order. The
query and the insert are two calls, a failed query looks like an absent host, and the result of
`register_host_to_cache` is dropped. As long as a query yields nothing only for a host that has no record
and that no other instance is about to insert, and no insert fails (`Registry.orderly`), no host has two
records and what `host_register` returns is true of what it did (`registration_exclusive`).
-/

namespace PullStream

open Function Transition Family ServerBiz

/-- A call of `host_register`: its arguments, what is left of it, and the documents it has inserted. -/
structure Registration where
  host : Str
  port : Int
  prog : HostAct Bool
  inserted : List HostDoc

/-- The collection and what the instances that have called `host_register` are doing. -/
structure Registry (ι : Type) where
  coll : List HostDoc
  run : ι → Option Registration

/-- An instance calls `host_register`, or its function makes its next call, which succeeds or fails. -/
inductive RegisterLabel where
  | start (host : Str) (port : Int)
  | call (ok : Bool)
  deriving DecidableEq, Repr

section

variable {ι : Type}

/-- The documents a call inserts. -/
def HostCall.inserts : HostCall → Bool → List HostDoc
  | .insert d, true => [d]
  | _, _ => []

namespace Registry

def boot (coll : List HostDoc) : Registry ι := ⟨coll, fun _ => none⟩

/-- No host has two records. -/
def Exclusive (s : Registry ι) : Prop := (s.coll.map (·.host)).Nodup

/-- What was returned is true: the one document inserted is the record of the host, or nothing was. -/
def Honest (s : Registry ι) : Prop :=
  ∀ i r b, s.run i = some r → r.prog = .ret b → r.inserted = if b then [⟨cStr r.host, r.port⟩] else []

end Registry

/-- A call of `host_register` that has found its host absent and has not inserted it yet. -/
def Registration.inserting (r : Registration) : Bool :=
  match r.prog with
  | .call (.setHost _ _) _ | .call (.insert _) _ => true
  | _ => false

/-- A query yields nothing only for a host that has no record and that no instance is about to insert, and
an insert does not fail. -/
def Registry.orderlyCall (s : Registry ι) (ok : Bool) : HostCall → Prop
  | .findOne host => (answerHost ok (.findOne host) s.coll).1 = none →
      host ∉ s.coll.map (·.host) ∧ ∀ j, ∀ r ∈ s.run j, r.inserting = true → cStr r.host ≠ host
  | .insert _ => ok = true
  | _ => True

def Registry.orderly (s : Registry ι) : ι × RegisterLabel → Prop
  | (i, .call ok) => ∀ r ∈ s.run i, ∀ c ∈ r.prog.view.call?, s.orderlyCall ok c
  | _ => True

instance [Fintype ι] (s : Registry ι) (ok : Bool) : (c : HostCall) → Decidable (s.orderlyCall ok c)
  | .findOne host => inferInstanceAs (Decidable (_ → _ ∧ ∀ j, ∀ r ∈ s.run j, r.inserting = true →
      cStr r.host ≠ host))
  | .insert _ => inferInstanceAs (Decidable (ok = true))
  | .remove _ | .setHost _ _ => inferInstanceAs (Decidable True)

instance [Fintype ι] (s : Registry ι) : (l : ι × RegisterLabel) → Decidable (s.orderly l)
  | (i, .call ok) => inferInstanceAs (Decidable (∀ r ∈ s.run i, ∀ c ∈ r.prog.view.call?, s.orderlyCall ok c))
  | (_, .start _ _) => inferInstanceAs (Decidable True)

variable [DecidableEq ι]

def registerStep (l : ι × RegisterLabel) (s : Registry ι) : Option (Registry ι) :=
  match l.2, s.run l.1 with
  | .start host port, none =>
    some { s with run := update s.run l.1 (some ⟨host, port, hostRegister host port, []⟩) }
  | .call ok, some ⟨host, port, .call c k, inserted⟩ =>
    let x := answerHost ok c s.coll
    some ⟨x.2, update s.run l.1 (some ⟨host, port, k x.1, inserted ++ c.inserts ok⟩)⟩
  | _, _ => none

end

/-! ### Where a call of `host_register` stands -/

/-- The stages of a call of `host_register`. -/
inductive Registration.Stage : Registration → Prop
  | query {host : Str} {port : Int} : Stage ⟨host, port, hostRegister host port, []⟩
  | absent {host : Str} {port : Int} : Stage ⟨host, port, registerAbsent host port, []⟩
  | insert {host : Str} {port : Int} : Stage ⟨host, port, registerInsert host port, []⟩
  | registered {host : Str} {port : Int} : Stage ⟨host, port, .ret true, [⟨cStr host, port⟩]⟩
  | exist {host : Str} {port : Int} : Stage ⟨host, port, .ret false, []⟩

/-- What a call does: its query finds the host or does not, it notes the host, it inserts it. -/
inductive RegisterStep (coll : List HostDoc) : Registration → Bool → Registration → List HostDoc → Prop
  | found {host : Str} {port : Int} {ok : Bool} :
      RegisterStep coll ⟨host, port, hostRegister host port, []⟩ ok ⟨host, port, .ret false, []⟩ coll
  | absent {host : Str} {port : Int} {ok : Bool} (h : (answerHost ok (.findOne (cStr host)) coll).1 = none) :
      RegisterStep coll ⟨host, port, hostRegister host port, []⟩ ok ⟨host, port, registerAbsent host port, []⟩
        coll
  | note {host : Str} {port : Int} {ok : Bool} :
      RegisterStep coll ⟨host, port, registerAbsent host port, []⟩ ok
        ⟨host, port, registerInsert host port, []⟩ coll
  | insert {host : Str} {port : Int} :
      RegisterStep coll ⟨host, port, registerInsert host port, []⟩ true
        ⟨host, port, .ret true, [⟨cStr host, port⟩]⟩ (coll ++ [⟨cStr host, port⟩])
  | insertFailed {host : Str} {port : Int} :
      RegisterStep coll ⟨host, port, registerInsert host port, []⟩ false ⟨host, port, .ret true, []⟩ coll

section

variable {ι : Type} [DecidableEq ι] {s s' : Registry ι} {i : ι}

theorem registerStep_cases {l : ι × RegisterLabel} (h : registerStep l s = some s')
    (hstage : ∀ i r, s.run i = some r → r.Stage) :
    (∃ host port, s.run l.1 = none ∧
      s' = { s with run := update s.run l.1 (some ⟨host, port, hostRegister host port, []⟩) }) ∨
    ∃ ok r r' coll, l.2 = .call ok ∧ s.run l.1 = some r ∧ RegisterStep s.coll r ok r' coll ∧
      s' = ⟨coll, update s.run l.1 (some r')⟩ := by
  obtain ⟨i, l⟩ := l
  simp only [registerStep] at h
  split at h
  · rename_i host port hrun
    cases h
    exact .inl ⟨host, port, hrun, rfl⟩
  · rename_i ok host port c k inserted hrun
    cases h
    refine .inr ⟨ok, _, _, _, rfl, hrun, ?_, rfl⟩
    generalize hr : (⟨host, port, .call c k, inserted⟩ : Registration) = r at hrun
    cases hstage _ r hrun with
    | query =>
      rw [hostRegister_eq] at hr
      cases hr
      dsimp only
      split
      · exact .found
      · rename_i hfound
        exact .absent (by simpa using hfound)
    | absent =>
      rw [registerAbsent_eq] at hr
      cases hr
      exact .note
    | insert =>
      cases hr
      cases ok
      · exact .insertFailed
      · exact .insert
    | registered | exist => cases hr
  · cases h

end

/-! ### The invariant -/

/-- A host that an instance is about to insert has no record, and no other instance is about to insert
it. -/
structure Registering {ι : Type} (s : Registry ι) : Prop where
  stage : ∀ i r, s.run i = some r → r.Stage
  exclusive : s.Exclusive
  absent : ∀ i r, s.run i = some r → r.inserting = true → cStr r.host ∉ s.coll.map (·.host)
  alone : ∀ i j r r', s.run i = some r → s.run j = some r' → r.inserting = true → r'.inserting = true →
    cStr r.host = cStr r'.host → i = j

namespace Registering

section

variable {ι : Type} [DecidableEq ι] {s : Registry ι} {i : ι} {r r' : Registration}

theorem goesOn (h : Registering s) (hstage : r'.Stage)
    (hins : r'.inserting = true → ∃ r, s.run i = some r ∧ r.inserting = true ∧ r.host = r'.host) :
    Registering ⟨s.coll, update s.run i (some r')⟩ := by
  refine ⟨fun j r₁ hj => ?_, h.exclusive, fun j r₁ hj hr₁ => ?_, fun j k r₁ r₂ hj hk hr₁ hr₂ heq => ?_⟩
  · obtain ⟨-, rfl⟩ | ⟨-, hj⟩ := of_update_some hj
    · exact hstage
    · exact h.stage j r₁ hj
  · obtain ⟨-, rfl⟩ | ⟨-, hj⟩ := of_update_some hj
    · obtain ⟨r, hr, hrins, hhost⟩ := hins hr₁
      rw [← hhost]
      exact h.absent i r hr hrins
    · exact h.absent j r₁ hj hr₁
  · obtain ⟨hji, rfl⟩ | ⟨-, hj'⟩ := of_update_some hj
    · obtain ⟨hki, -⟩ | ⟨-, hk⟩ := of_update_some hk
      · exact hji.trans hki.symm
      · obtain ⟨r, hr, hrins, hhost⟩ := hins hr₁
        exact hji.trans (h.alone i k r r₂ hr hk hrins hr₂ (hhost ▸ heq))
    · obtain ⟨hki, rfl⟩ | ⟨-, hk⟩ := of_update_some hk
      · obtain ⟨r, hr, hrins, hhost⟩ := hins hr₂
        exact (h.alone j i r₁ r hj' hr hr₁ hrins (hhost ▸ heq)).trans hki.symm
      · exact h.alone j k r₁ r₂ hj' hk hr₁ hr₂ heq

theorem finds (h : Registering s) (hstage : r'.Stage) (hfree : cStr r'.host ∉ s.coll.map (·.host))
    (halone : ∀ j, ∀ r ∈ s.run j, r.inserting = true → cStr r.host ≠ cStr r'.host) :
    Registering ⟨s.coll, update s.run i (some r')⟩ := by
  refine ⟨fun j r₁ hj => ?_, h.exclusive, fun j r₁ hj hr₁ => ?_, fun j k r₁ r₂ hj hk hr₁ hr₂ heq => ?_⟩
  · obtain ⟨-, rfl⟩ | ⟨-, hj⟩ := of_update_some hj
    · exact hstage
    · exact h.stage j r₁ hj
  · obtain ⟨-, rfl⟩ | ⟨-, hj⟩ := of_update_some hj
    · exact hfree
    · exact h.absent j r₁ hj hr₁
  · obtain ⟨hji, rfl⟩ | ⟨-, hj'⟩ := of_update_some hj
    · obtain ⟨hki, -⟩ | ⟨-, hk⟩ := of_update_some hk
      · exact hji.trans hki.symm
      · exact absurd heq.symm (halone k r₂ hk hr₂)
    · obtain ⟨-, rfl⟩ | ⟨-, hk⟩ := of_update_some hk
      · exact absurd heq (halone j r₁ hj' hr₁)
      · exact h.alone j k r₁ r₂ hj' hk hr₁ hr₂ heq

theorem inserts (h : Registering s) (hrun : s.run i = some r) (hins : r.inserting = true) (hstage : r'.Stage)
    (hdone : r'.inserting = false) :
    Registering ⟨s.coll ++ [⟨cStr r.host, r.port⟩], update s.run i (some r')⟩ := by
  have hfree := h.absent i r hrun hins
  have hrest := h.goesOn (i := i) hstage (by simp [hdone])
  refine ⟨hrest.stage, ?_, fun j r₁ hj hr₁ => ?_, hrest.alone⟩
  · rw [Registry.Exclusive, List.map_append, List.nodup_append]
    refine ⟨h.exclusive, by simp, fun a ha b hb => ?_⟩
    rintro rfl
    rw [List.mem_singleton.mp hb] at ha
    exact hfree ha
  · obtain ⟨-, rfl⟩ | ⟨hne, hj⟩ := of_update_some hj
    · simp [hdone] at hr₁
    · simp only [List.map_append, List.map_cons, List.map_nil, List.mem_append, List.mem_singleton, not_or]
      exact ⟨h.absent j r₁ hj hr₁, fun heq => hne (h.alone j i r₁ r hj hrun hr₁ hins heq)⟩

theorem step {s' : Registry ι} {l : ι × RegisterLabel} (h : Registering s) (horderly : s.orderly l)
    (hstep : registerStep l s = some s') : Registering s' := by
  obtain ⟨i, l⟩ := l
  obtain ⟨host, port, -, rfl⟩ | ⟨ok, r, r', coll, rfl, hrun, hcall, rfl⟩ :=
    registerStep_cases hstep h.stage
  · exact h.goesOn .query nofun
  · have hcond := horderly r hrun
    cases hcall with
    | found => exact h.goesOn .exist nofun
    | absent hnone =>
      obtain ⟨hfree, halone⟩ := hcond _ rfl hnone
      exact h.finds .absent hfree halone
    | note => exact h.goesOn .insert fun _ => ⟨_, hrun, rfl, rfl⟩
    | insert => exact h.inserts hrun rfl .registered rfl
    | insertFailed => cases hcond _ rfl

omit [DecidableEq ι] in
theorem honest (h : Registering s) : s.Honest := by
  intro i r b hrun hret
  cases h.stage i r hrun with
  | query => simp [hostRegister_eq] at hret
  | absent => simp [registerAbsent_eq] at hret
  | insert => simp [registerInsert] at hret
  | registered | exist =>
    cases hret
    rfl

end

end Registering

/-- **Registration is exclusive and honest** in every run that is orderly. -/
theorem registration_exclusive {ι : Type} [DecidableEq ι] {coll : List HostDoc}
    {ls : List (ι × RegisterLabel)} {s : Registry ι} (hcoll : (coll.map (·.host)).Nodup)
    (h : Runs registerStep Registry.orderly (Registry.boot coll) ls s) : s.Exclusive ∧ s.Honest := by
  have hboot : Registering (Registry.boot coll : Registry ι) :=
    ⟨by simp [Registry.boot], hcoll, by simp [Registry.boot], by simp [Registry.boot]⟩
  have hinv := h.inv Registering hboot fun t l u ht horderly hstep => ht.step horderly hstep
  exact ⟨hinv.exclusive, hinv.honest⟩

/-! ### One instance, and two -/

def sampleHost : Str := lit "10.0.0.1"

/-- An instance registers, its three calls made one after another. -/
def registerLabels (i : Fin 2) : List (Fin 2 × RegisterLabel) :=
  [(i, .start sampleHost 8080), (i, .call true), (i, .call true), (i, .call true)]

def registeredEnd : Registry (Fin 2) :=
  (check registerStep Registry.orderly (registerLabels 0 ++ [(1, .start sampleHost 8080), (1, .call true)])
    (Registry.boot [])).get (by decide)

theorem registration_exclusive_two : registeredEnd.Exclusive ∧ registeredEnd.Honest :=
  registration_exclusive (by decide) (runs_get _)

/-- Both instances look before either of them inserts. -/
def bothLook : List (Fin 2 × RegisterLabel) :=
  [(0, .start sampleHost 8080), (1, .start sampleHost 8080), (0, .call true), (1, .call true),
    (0, .call true), (0, .call true), (1, .call true), (1, .call true)]

def bothLookEnd : Registry (Fin 2) :=
  (check registerStep (fun _ _ => True) bothLook (Registry.boot [])).get (by decide)

/-- The insert of the only instance fails. -/
def insertFails : List (Fin 2 × RegisterLabel) :=
  [(0, .start sampleHost 8080), (0, .call true), (0, .call true), (0, .call false)]

def insertFailsEnd : Registry (Fin 2) :=
  (check registerStep (fun _ _ => True) insertFails (Registry.boot [])).get (by decide)

theorem registration_repeated :
    (¬ ∀ (n : Nat) (coll : List HostDoc) (ls : List (Fin n × RegisterLabel)) (s : Registry (Fin n)),
      (coll.map (·.host)).Nodup → Runs registerStep (fun _ _ => True) (Registry.boot coll) ls s →
      s.Exclusive) ∧
    ¬ ∀ (n : Nat) (coll : List HostDoc) (ls : List (Fin n × RegisterLabel)) (s : Registry (Fin n)),
      (coll.map (·.host)).Nodup → Runs registerStep (fun _ _ => True) (Registry.boot coll) ls s →
      s.Honest := by
  refine ⟨fun h => ?_, fun h => ?_⟩
  · have hexclusive := h 2 [] bothLook bothLookEnd (by decide) (runs_get _)
    revert hexclusive
    unfold Registry.Exclusive
    decide
  · have hhonest := h 2 [] insertFails insertFailsEnd (by decide) (runs_get _)
    have hinserted := hhonest 0 ⟨sampleHost, 8080, .ret true, []⟩ true rfl rfl
    cases hinserted

end PullStream
