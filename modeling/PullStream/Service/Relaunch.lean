import PullStream.Base.Potential
import PullStream.Service.Exclusion
/-!
# Does `pulld` bring a service back?

A machine may get into any state in which `pulld` runs: instances have ended at any point, or wait for a lock that
another holds, records of instances that are gone are left, also several, and `pulld` stands anywhere in its cycle.
From there the steps of `pulld` and of the instances themselves, no call failing, can always lead to an instance that
serves, its port bound (`service_recovers`). Where no instance is left, it is the one that `pulld` launches, and its
record is the only one of the host: each cycle removes one old record, and an instance that finds another one ends.
-/

namespace PullStream

open Transition ServerBiz

/-- A step of `pulld` or of an instance in which no call fails. -/
def MachineLabel.unaided : MachineLabel → Bool
  | .pulld ok | .pull _ ok => ok
  | _ => false

/-- Unaided steps can lead from one state to another. -/
def Leads (cfg : Config) (m m' : Machine) : Prop :=
  ∃ ls, Runs (machineStep cfg) (fun _ l => l.unaided = true) m ls m'

section

variable {cfg : Config} {m m' u : Machine} {l : MachineLabel}

theorem Leads.refl (cfg : Config) (m : Machine) : Leads cfg m m := ⟨[], .nil⟩

theorem Leads.trans (h : Leads cfg m m') (h' : Leads cfg m' u) : Leads cfg m u := by
  obtain ⟨ls, hrun⟩ := h
  obtain ⟨ls', hrun'⟩ := h'
  exact ⟨ls ++ ls', hrun.trans hrun'⟩

theorem Leads.pulld (h : m.pulldStep cfg true = some m') (h' : Leads cfg m' u) : Leads cfg m u :=
  Leads.trans ⟨[.pulld true], Runs.single rfl h⟩ h'

theorem Leads.pull {i : Nat} {p : Pull} {x : Pull × List HostDoc × Nat} (hi : m.pulls[i]? = some p)
    (hx : p.step cfg true m m.locked = some x)
    (h : Leads cfg { m with pulls := m.pulls.set i x.1, coll := x.2.1, file := x.2.2 } u) : Leads cfg m u := by
  refine Leads.trans ⟨[.pull i true], Runs.single rfl ?_⟩ h
  show (m.pulls[i]?.bind fun p => (p.step cfg true m m.locked).map _) = _
  rw [hi, Option.bind_some, hx]
  rfl

end

/-! ### What holds in every reachable state -/

/-- The programs are where they can be, and nobody holds a lock who is not going to give it back. -/
structure Ready (cfg : Config) (m : Machine) : Prop where
  stage : ∀ p ∈ m.pulls, p.Stage cfg
  pulld : m.pulld.Stage cfg
  exited : ∀ p ∈ m.pulls, p.hasExited = true → p.lock = none
  pulldLock : m.pulldLock = none ∨ m.pulld = .closePid true
  waiting : ∀ i, m.pulld = .waiting i → i < m.pulls.length

section

variable {cfg : Config} {ok : Bool} {m m' : Machine} {l : MachineLabel} {p p' : Pull} {i : Nat}
  {x : Pull × List HostDoc × Nat} {locked : Nat → Bool}

theorem Pull.lock_of_step (hs : p.Stage cfg) (h : p.step cfg ok m locked = some x) (hexited : x.1.hasExited = true) :
    x.1.lock = none := by
  obtain ⟨point, host, lock, record⟩ := p
  cases point with
  | openPid | init | evhttpStart =>
    cases h
    cases ok
    · rfl
    · cases hexited
  | lockPid fd =>
    cases h
    dsimp only at hexited ⊢
    split_ifs at hexited ⊢
    · rfl
    · cases hexited
  | dispatch =>
    cases h
    cases hexited
  | unlink =>
    cases h
    rfl
  | exited => cases h
  | register prog =>
    cases prog with
    | ret registered =>
      cases h
      cases registered
      · rfl
      · cases hexited
    | call c k =>
      cases h
      cases c <;> cases hexited
  | terminal prog =>
    cases prog with
    | ret =>
      cases h
      rfl
    | call c k =>
      cases h
      cases hexited

theorem Pull.lock_of_signal (h : p.signal = some p') (hexited : p'.hasExited = true) : p'.lock = none := by
  obtain ⟨point, host, lock, record⟩ := p
  cases point with
  | openPid | lockPid | init =>
    cases h
    rfl
  | exited => cases h
  | register | evhttpStart | dispatch | unlink | terminal =>
    cases h
    cases hexited

namespace Ready

theorem set (h : Ready cfg m) (hs : p'.Stage cfg) (hexited : p'.hasExited = true → p'.lock = none)
    (coll : List HostDoc) (file : Nat) : Ready cfg { m with pulls := m.pulls.set i p', coll, file } := by
  have hmem {q : Pull} (hq : q ∈ m.pulls.set i p') : q ∈ m.pulls ∨ q = p' := List.mem_or_eq_of_mem_set hq
  refine ⟨fun q hq => ?_, h.pulld, fun q hq => ?_, h.pulldLock, fun j hj => ?_⟩
  · rcases hmem hq with hq | rfl
    · exact h.stage q hq
    · exact hs
  · rcases hmem hq with hq | rfl
    · exact h.exited q hq
    · exact hexited
  · show j < (m.pulls.set i p').length
    rw [List.length_set]
    exact h.waiting j hj

theorem other (h : Ready cfg m) (hpulls : m'.pulls = m.pulls ∨ m'.pulls = m.pulls ++ [Pull.start cfg])
    (hstage : m'.pulld.Stage cfg) (hlock : m'.pulldLock = none ∨ m'.pulld = .closePid true)
    (hwaiting : ∀ i, m'.pulld = .waiting i → m.pulld = .waiting i ∨ i < m'.pulls.length) : Ready cfg m' := by
  have hmem {q : Pull} (hq : q ∈ m'.pulls) : q ∈ m.pulls ∨ q = Pull.start cfg := by
    rcases hpulls with hp | hp
    · exact .inl (hp ▸ hq)
    · exact (List.mem_append.mp (hp ▸ hq)).imp_right List.mem_singleton.mp
  refine ⟨fun q hq => ?_, hstage, fun q hq hexited => ?_, hlock, fun i hi => ?_⟩
  · rcases hmem hq with hq | rfl
    · exact h.stage q hq
    · exact Pull.stage_start cfg
  · rcases hmem hq with hq | rfl
    · exact h.exited q hq hexited
    · rw [Pull.start] at hexited
      split_ifs at hexited <;> cases hexited
  · rcases hwaiting i hi with hi | hi
    · have hlt := h.waiting i hi
      rcases hpulls with hp | hp
      · rw [hp]
        exact hlt
      · rw [hp, List.length_append]
        omega
    · exact hi

theorem pulldStep_idle (hlock : m.pulldLock = none ∨ m.pulld = .closePid true)
    (hstep : m.pulldStep cfg ok = some m') : (m'.pulldLock = none ∨ m'.pulld = .closePid true) ∧
      ∀ i, m'.pulld = .waiting i → i < m'.pulls.length := by
  obtain ⟨coll, file, pulls, pulld, lock⟩ := m
  -- Only here does `pulld` hold a lock, and the step gives it back.
  by_cases hclose : pulld = .closePid true
  · subst hclose
    cases hstep
    exact ⟨.inl rfl, fun i hi => by cases hi⟩
  have hfree : lock = none := hlock.resolve_right hclose
  cases pulld with
  | openPid =>
    cases hstep
    refine ⟨.inl hfree, fun i hi => ?_⟩
    cases ok <;> cases hi
  | lockPid fd =>
    cases hstep
    dsimp only
    split_ifs
    · exact ⟨.inl hfree, fun i hi => by cases hi⟩
    · exact ⟨.inr rfl, fun i hi => by cases hi⟩
  | closePid locked =>
    cases hstep
    refine ⟨.inl rfl, fun i hi => ?_⟩
    cases locked <;> cases hi
  | isHostExist prog =>
    cases prog with
    | ret found =>
      cases hstep
      refine ⟨.inl hfree, fun i hi => ?_⟩
      cases found <;> cases hi
    | call c k =>
      cases hstep
      exact ⟨.inl hfree, fun i hi => by cases hi⟩
  | removeHost prog =>
    cases prog <;> (cases hstep; exact ⟨.inl hfree, fun i hi => by cases hi⟩)
  | system =>
    cases hstep
    cases ok
    · exact ⟨.inl hfree, fun i hi => by cases hi⟩
    · refine ⟨.inl hfree, fun i hi => ?_⟩
      replace hi : (if cfg.daemon then PulldPoint.openPid else .waiting pulls.length) = .waiting i := hi
      show i < (pulls ++ [Pull.start cfg]).length
      split_ifs at hi
      cases hi
      rw [List.length_append]
      exact Nat.lt_succ_self _
  | waiting i =>
    simp only [Machine.pulldStep] at hstep
    split at hstep
    · split_ifs at hstep
      cases hstep
      exact ⟨.inl hfree, fun i hi => by cases hi⟩
    · cases hstep
  | exited => cases hstep

theorem step (h : Ready cfg m) (hstep : machineStep cfg l m = some m') : Ready cfg m' := by
  cases l with
  | startPull =>
    cases hstep
    exact h.other (.inr rfl) h.pulld h.pulldLock fun i hi => .inl hi
  | pull i ok =>
    obtain ⟨p, hi, hp⟩ := Option.bind_eq_some_iff.mp hstep
    obtain ⟨x, hx, rfl⟩ := Option.map_eq_some_iff.mp hp
    have hs := h.stage p (List.mem_of_getElem? hi)
    exact h.set (Pull.step_cases hs hx).stage (Pull.lock_of_step hs hx) x.2.1 x.2.2
  | signal i =>
    obtain ⟨p, hi, hp⟩ := Option.bind_eq_some_iff.mp hstep
    obtain ⟨p', hp', rfl⟩ := Option.map_eq_some_iff.mp hp
    have hs : p'.Stage cfg := (Pull.stage_signal hp').1
    exact h.set hs (Pull.lock_of_signal hp') m.coll m.file
  | killPull i =>
    obtain ⟨p, hi, hp⟩ := Option.bind_eq_some_iff.mp hstep
    split_ifs at hp
    cases hp
    exact h.set (Pull.stage_exit cfg p) (fun _ => rfl) m.coll m.file
  | startPulld =>
    simp only [machineStep] at hstep
    split at hstep
    · rename_i hexited
      cases hstep
      refine h.other (.inl rfl) trivial (.inl (h.pulldLock.resolve_right ?_)) (fun i hi => by cases hi)
      rw [hexited]
      intro hclose
      cases hclose
    · cases hstep
  | pulld ok =>
    obtain ⟨hlock, hwaiting⟩ := pulldStep_idle h.pulldLock hstep
    have hcases := pulldStep_cases h.pulld hstep
    exact h.other hcases.pulls hcases.stage hlock fun i hi => .inr (hwaiting i hi)
  | killPulld =>
    cases hstep
    exact h.other (.inl rfl) trivial (.inl rfl) fun i hi => by cases hi

end Ready

/-! ### Instances come to their ends -/

/-- The instance serves: it is in `event_dispatch`, and its port is bound. -/
def Pull.dispatching (p : Pull) : Bool :=
  match p.point with
  | .dispatch => true
  | _ => false

/-- How far an instance is from serving or having ended. -/
def Pull.rank (p : Pull) : Nat :=
  match p.point with
  | .openPid => 8
  | .lockPid _ => 7
  | .init => 6
  | .register (.call (.findOne _) _) => 5
  | .register (.call (.setHost _ _) _) => 4
  | .register (.call _ _) => 3
  | .register (.ret _) | .terminal (.call _ _) => 2
  | .evhttpStart | .unlink | .terminal (.ret _) => 1
  | .dispatch | .exited => 0

theorem Pull.step_rank (hs : p.Stage cfg) (hexited : p.hasExited = false) (hserving : p.dispatching = false)
    (m : Machine) : ∃ x, p.step cfg true m m.locked = some x ∧ x.1.rank < p.rank := by
  obtain ⟨point, host, lock, record⟩ := p
  cases point with
  | openPid | init => exact ⟨_, rfl, Nat.lt_succ_self _⟩
  | evhttpStart | unlink => exact ⟨_, rfl, Nat.zero_lt_succ _⟩
  | lockPid fd =>
    refine ⟨_, rfl, ?_⟩
    dsimp only
    split_ifs
    · exact Nat.zero_lt_succ _
    · exact Nat.lt_succ_self _
  | register prog =>
    obtain ⟨rfl | rfl | rfl, hrec⟩ | ⟨registered, rfl, hrec⟩ := hs
    · rw [hostRegister_eq]
      refine ⟨_, rfl, ?_⟩
      dsimp only [Pull.goto, Pull.noteCall]
      split_ifs
      · exact Nat.lt_of_sub_pos (Nat.zero_lt_succ 2)
      · rw [registerAbsent_eq]
        exact Nat.lt_succ_self _
    · rw [registerAbsent_eq]
      exact ⟨_, rfl, Nat.lt_succ_self _⟩
    · exact ⟨_, rfl, Nat.lt_succ_self _⟩
    · refine ⟨_, rfl, ?_⟩
      cases registered
      · exact Nat.zero_lt_succ _
      · exact Nat.lt_succ_self _
  | dispatch => cases hserving
  | terminal prog =>
    obtain hprog | ⟨ret, rfl, hrec⟩ := hs
    · obtain rfl : prog = removeHost host := hprog
      rw [removeHost_eq]
      exact ⟨_, rfl, Nat.lt_succ_self _⟩
    · exact ⟨_, rfl, Nat.zero_lt_succ _⟩
  | exited => cases hexited

/-- Some instance serves, or all have ended. -/
def Settled (m : Machine) : Prop := (∃ p ∈ m.pulls, p.dispatching = true) ∨ ∀ p ∈ m.pulls, p.hasExited = true

theorem leads_settled (h : Ready cfg m) (hpulld : m.pulld ≠ .exited) :
    ∃ u, Leads cfg m u ∧ Ready cfg u ∧ u.pulld ≠ .exited ∧ Settled u := by
  generalize hn : (m.pulls.map Pull.rank).sum = n
  induction n using Nat.strong_induction_on generalizing m with
  | _ n ih =>
    by_cases hsettled : Settled m
    · exact ⟨m, Leads.refl cfg m, h, hpulld, hsettled⟩
    · rw [Settled, not_or] at hsettled
      obtain ⟨hserving, hexited⟩ := hsettled
      push Not at hserving hexited
      obtain ⟨p, hp, hnot⟩ := hexited
      obtain ⟨i, hi⟩ := List.mem_iff_getElem?.mp hp
      obtain ⟨x, hx, hrank⟩ := Pull.step_rank (h.stage p hp) (eq_false_of_ne_true hnot)
        (eq_false_of_ne_true (hserving p hp)) m
      have hsum := @sum_map_set _ Pull.rank _ _ _ hi x.1
      have hs := h.stage p hp
      have hready := h.set (i := i) (Pull.step_cases hs hx).stage (Pull.lock_of_step hs hx) x.2.1 x.2.2
      have hlt : ((m.pulls.set i x.1).map Pull.rank).sum < n := by omega
      obtain ⟨u, hleads, hu⟩ := ih _ hlt hready hpulld rfl
      exact ⟨u, Leads.pull hi hx hleads, hu⟩

theorem Leads.ready (hl : Leads cfg m m') (h : Ready cfg m) : Ready cfg m' := by
  obtain ⟨ls, hrun⟩ := hl
  exact hrun.inv (Ready cfg) h fun _ _ _ ht _ hstep => ht.step hstep

end

/-! ### `pulld` launches an instance -/

/-- An instance has been launched, all others having ended, and the host has these records. -/
structure Launched (cfg : Config) (ps : List Pull) (rs : List HostDoc) (m : Machine) : Prop where
  pulls : m.pulls = ps ++ [Pull.start cfg]
  recs : hostRecs (cStr cfg.host) m.coll = rs
  pulld : m.pulld = if cfg.daemon then .openPid else .waiting ps.length
  pulldLock : m.pulldLock = none

section

variable {cfg : Config} {coll : List HostDoc} {file fd : Nat} {ps : List Pull} {m : Machine}

theorem launch_system (cfg : Config) (coll : List HostDoc) (file : Nat) (ps : List Pull) :
    ∃ u, Leads cfg ⟨coll, file, ps, .system, none⟩ u ∧ Launched cfg ps (hostRecs (cStr cfg.host) coll) u :=
  ⟨_, Leads.pulld rfl (Leads.refl cfg _), rfl, rfl, rfl, rfl⟩

theorem launch_removeHost (cfg : Config) (coll : List HostDoc) (file : Nat) (ps : List Pull) :
    ∃ u, Leads cfg ⟨coll, file, ps, .removeHost (Pulld.removeHost cfg.host), none⟩ u ∧
      Launched cfg ps (hostRecs (cStr cfg.host) coll).tail u := by
  obtain ⟨u, hleads, hu⟩ := launch_system cfg (coll.eraseP fun d => d.host = cStr cfg.host) file ps
  have hrecs : hostRecs (cStr cfg.host) (coll.eraseP fun d => d.host = cStr cfg.host) =
      (hostRecs (cStr cfg.host) coll).tail := Keyed.slot_eraseP_self HostDoc.host _ coll
  exact ⟨u, Leads.pulld rfl (Leads.pulld rfl hleads), hrecs ▸ hu⟩

theorem pulldExist_eq (host : Str) :
    Pulld.isHostExist host = .call (.findOne (cStr host)) fun found => .ret found.isSome := by
  refine congrArg (Prog.call _) (funext fun (found : Option HostDoc) => ?_)
  cases found <;> rfl

theorem launch_isHostExist (cfg : Config) (coll : List HostDoc) (file : Nat) (ps : List Pull) :
    ∃ u, Leads cfg ⟨coll, file, ps, .isHostExist (Pulld.isHostExist cfg.host), none⟩ u ∧
      Launched cfg ps (hostRecs (cStr cfg.host) coll).tail u := by
  have hstep : Machine.pulldStep cfg true ⟨coll, file, ps, .isHostExist (Pulld.isHostExist cfg.host), none⟩ =
      some ⟨coll, file, ps, .isHostExist (.ret (coll.find? fun d => d.host = cStr cfg.host).isSome), none⟩ := by
    rw [pulldExist_eq]
    rfl
  cases hfind : coll.find? fun d => d.host = cStr cfg.host with
  | none =>
    rw [hfind] at hstep
    obtain ⟨u, hleads, hu⟩ := launch_system cfg coll file ps
    rw [hostRecs_of_find? hfind] at hu ⊢
    exact ⟨u, Leads.pulld hstep (Leads.pulld rfl hleads), hu⟩
  | some d =>
    rw [hfind] at hstep
    obtain ⟨u, hleads, hu⟩ := launch_removeHost cfg coll file ps
    exact ⟨u, Leads.pulld hstep (Leads.pulld rfl hleads), hu⟩

theorem locked_false (hlock : m.pulldLock = none) (hps : ∀ p ∈ m.pulls, p.lock = none) (fd : Nat) :
    m.locked fd = false := by
  rw [Machine.locked, hlock, Bool.or_eq_false_iff, List.any_eq_false]
  exact ⟨rfl, fun p hp => by simp [hps p hp]⟩

theorem launch_lockPid (cfg : Config) (coll : List HostDoc) (file fd : Nat) (hps : ∀ p ∈ ps, p.lock = none) :
    ∃ u, Leads cfg ⟨coll, file, ps, .lockPid fd, none⟩ u ∧
      Launched cfg ps (hostRecs (cStr cfg.host) coll).tail u := by
  obtain ⟨u, hleads, hu⟩ := launch_isHostExist cfg coll file ps
  have hlock : Machine.pulldStep cfg true ⟨coll, file, ps, .lockPid fd, none⟩ =
      some ⟨coll, file, ps, .closePid true, some fd⟩ :=
    congrArg some (if_neg (by rw [locked_false rfl hps]; exact Bool.false_ne_true))
  exact ⟨u, Leads.pulld hlock (Leads.pulld rfl hleads), hu⟩

theorem launch_openPid (cfg : Config) (coll : List HostDoc) (file : Nat) (hps : ∀ p ∈ ps, p.lock = none) :
    ∃ u, Leads cfg ⟨coll, file, ps, .openPid, none⟩ u ∧ Launched cfg ps (hostRecs (cStr cfg.host) coll).tail u := by
  obtain ⟨u, hleads, hu⟩ := launch_lockPid cfg coll file file hps
  exact ⟨u, Leads.pulld rfl hleads, hu⟩

/-- `pulld` waits for nobody. -/
def Machine.Idle (m : Machine) : Prop := m.pulld = .openPid ∨ ∃ i, m.pulld = .waiting i

/-- **When all instances have ended, `pulld` launches one**, and a whole cycle of it removes a record if there is one.
-/
theorem launch (h : Ready cfg m) (hexited : ∀ p ∈ m.pulls, p.hasExited = true) (hpulld : m.pulld ≠ .exited) :
    ∃ u rs, Leads cfg m u ∧ Launched cfg m.pulls rs u ∧
      (m.Idle → rs = (hostRecs (cStr cfg.host) m.coll).tail) := by
  have hps : ∀ p ∈ m.pulls, p.lock = none := fun p hp => h.exited p hp (hexited p hp)
  have hstage := h.pulld
  have hlock := h.pulldLock
  have hwaiting := h.waiting
  obtain ⟨coll, file, ps, pulld, lock⟩ := m
  by_cases hclose : pulld = .closePid true
  · subst hclose
    obtain ⟨u, hleads, hu⟩ := launch_isHostExist cfg coll file ps
    exact ⟨u, _, Leads.pulld rfl hleads, hu, fun _ => rfl⟩
  obtain rfl : lock = none := hlock.resolve_right hclose
  cases pulld with
  | openPid =>
    obtain ⟨u, hleads, hu⟩ := launch_openPid cfg coll file hps
    exact ⟨u, _, hleads, hu, fun _ => rfl⟩
  | lockPid fd =>
    obtain ⟨u, hleads, hu⟩ := launch_lockPid cfg coll file fd hps
    exact ⟨u, _, hleads, hu, fun _ => rfl⟩
  | closePid locked =>
    cases locked with
    | true => exact absurd rfl hclose
    | false =>
      obtain ⟨u, hleads, hu⟩ := launch_openPid cfg coll file hps
      exact ⟨u, _, Leads.pulld rfl hleads, hu, fun _ => rfl⟩
  | isHostExist prog =>
    obtain rfl | ⟨found, rfl⟩ := hstage
    · obtain ⟨u, hleads, hu⟩ := launch_isHostExist cfg coll file ps
      exact ⟨u, _, hleads, hu, fun _ => rfl⟩
    · cases found with
      | true =>
        obtain ⟨u, hleads, hu⟩ := launch_removeHost cfg coll file ps
        exact ⟨u, _, Leads.pulld rfl hleads, hu, fun _ => rfl⟩
      | false =>
        obtain ⟨u, hleads, hu⟩ := launch_system cfg coll file ps
        refine ⟨u, _, Leads.pulld rfl hleads, hu, fun hidle => ?_⟩
        rcases hidle with hidle | ⟨i, hidle⟩ <;> cases hidle
  | removeHost prog =>
    obtain rfl | ⟨ret, rfl⟩ := hstage
    · obtain ⟨u, hleads, hu⟩ := launch_removeHost cfg coll file ps
      exact ⟨u, _, hleads, hu, fun _ => rfl⟩
    · obtain ⟨u, hleads, hu⟩ := launch_system cfg coll file ps
      refine ⟨u, _, Leads.pulld rfl hleads, hu, fun hidle => ?_⟩
      rcases hidle with hidle | ⟨i, hidle⟩ <;> cases hidle
  | system =>
    obtain ⟨u, hleads, hu⟩ := launch_system cfg coll file ps
    refine ⟨u, _, hleads, hu, fun hidle => ?_⟩
    rcases hidle with hidle | ⟨i, hidle⟩ <;> cases hidle
  | waiting i =>
    obtain ⟨u, hleads, hu⟩ := launch_openPid cfg coll file hps
    have hlt : i < ps.length := hwaiting i rfl
    have hback : Machine.pulldStep cfg true ⟨coll, file, ps, .waiting i, none⟩ =
        some ⟨coll, file, ps, .openPid, none⟩ := by
      simp only [Machine.pulldStep, List.getElem?_eq_getElem hlt, hexited _ (List.getElem_mem hlt), if_true]
    exact ⟨u, _, Leads.pulld hback hleads, hu, fun _ => rfl⟩
  | exited => exact absurd rfl hpulld

/-! ### The instance that has been launched -/

theorem Leads.last {u : Machine} {pulld : PulldPoint} {lock : Option Nat} {p : Pull} {x : Pull × List HostDoc × Nat}
    (hx : p.step cfg true ⟨coll, file, ps ++ [p], pulld, lock⟩ (Machine.locked ⟨coll, file, ps ++ [p], pulld, lock⟩) =
      some x)
    (h : Leads cfg ⟨x.2.1, x.2.2, ps ++ [x.1], pulld, lock⟩ u) :
    Leads cfg ⟨coll, file, ps ++ [p], pulld, lock⟩ u := by
  refine Leads.pull (i := ps.length) List.getElem?_concat_length hx ?_
  show Leads cfg ⟨_, _, (ps ++ [p]).set ps.length x.1, pulld, lock⟩ u
  rw [List.set_append_right _ _ (Nat.le_refl _), Nat.sub_self]
  exact h

theorem leads_init (hps : ∀ p ∈ ps, p.lock = none) (pulld : PulldPoint) :
    ∃ lock, Leads cfg ⟨coll, file, ps ++ [Pull.start cfg], pulld, none⟩
      ⟨coll, file, ps ++ [⟨.init, [], lock, false⟩], pulld, none⟩ := by
  rw [Pull.start]
  split_ifs with hdaemon
  · have hlocks (fd : Nat) : ∀ p ∈ ps ++ [(⟨.lockPid fd, [], none, false⟩ : Pull)], p.lock = none := by
      rw [List.forall_mem_append, List.forall_mem_singleton]
      exact ⟨hps, rfl⟩
    have hlock : Pull.step cfg true ⟨coll, file, ps ++ [⟨.lockPid file, [], none, false⟩], pulld, none⟩
        (Machine.locked ⟨coll, file, ps ++ [⟨.lockPid file, [], none, false⟩], pulld, none⟩)
        ⟨.lockPid file, [], none, false⟩ = some (⟨.init, [], some file, false⟩, coll, file) :=
      congrArg (fun p => some (p, coll, file))
        (if_neg (by rw [locked_false rfl (hlocks file)]; exact Bool.false_ne_true))
    exact ⟨some file, Leads.last rfl (Leads.last hlock (Leads.refl cfg _))⟩
  · exact ⟨none, Leads.refl cfg _⟩

theorem Pull.step_query (host : Str) (lock : Option Nat) (record : Bool) (m : Machine) (locked : Nat → Bool) :
    Pull.step cfg true m locked ⟨.register (hostRegister cfg.host cfg.port), host, lock, record⟩ =
      some (⟨.register (if (m.coll.find? fun d => d.host = cStr cfg.host).isSome then .ret false
        else registerAbsent cfg.host cfg.port), host, lock, record⟩, m.coll, m.file) := by
  rw [hostRegister_eq]
  rfl

theorem Pull.step_absent (host : Str) (lock : Option Nat) (record : Bool) (m : Machine) (locked : Nat → Bool) :
    Pull.step cfg true m locked ⟨.register (registerAbsent cfg.host cfg.port), host, lock, record⟩ =
      some (⟨.register (registerInsert cfg.host cfg.port), cfg.host, lock, record⟩, m.coll, m.file) := by
  rw [registerAbsent_eq]
  rfl

theorem leads_up (hnone : hostRecs (cStr cfg.host) coll = []) (lock : Option Nat) (pulld : PulldPoint) :
    ∃ p : Pull, p.dispatching = true ∧ Leads cfg ⟨coll, file, ps ++ [⟨.init, [], lock, false⟩], pulld, none⟩
      ⟨coll ++ [⟨cStr cfg.host, cfg.port⟩], file, ps ++ [p], pulld, none⟩ := by
  have hfind : (coll.find? fun d => d.host = cStr cfg.host) = none := by
    rw [Keyed.find?_slot HostDoc.host, show Keyed.slot HostDoc.host (cStr cfg.host) coll = [] from hnone]
    rfl
  refine ⟨⟨.dispatch, cfg.host, lock, true⟩, rfl, Leads.last rfl (Leads.last (Pull.step_query ..) ?_)⟩
  simp only [hfind]
  exact Leads.last (Pull.step_absent ..) (Leads.last rfl (Leads.last rfl (Leads.last rfl (Leads.refl cfg _))))

theorem leads_down (hsome : hostRecs (cStr cfg.host) coll ≠ []) (lock : Option Nat) (pulld : PulldPoint) :
    ∃ p : Pull, p.hasExited = true ∧ Leads cfg ⟨coll, file, ps ++ [⟨.init, [], lock, false⟩], pulld, none⟩
      ⟨coll, file, ps ++ [p], pulld, none⟩ := by
  have hfind : (coll.find? fun d => d.host = cStr cfg.host).isSome = true := by
    by_contra hnone
    exact hsome (hostRecs_of_find? (Option.not_isSome_iff_eq_none.mp hnone))
  refine ⟨⟨.exited, [], none, false⟩, rfl, Leads.last rfl (Leads.last (Pull.step_query ..) ?_)⟩
  simp only [hfind]
  exact Leads.last rfl (Leads.refl cfg _)

end

/-! ### The service comes back -/

/-- The last instance serves, all others have ended, and its record is the only one of the host. -/
structure Up (cfg : Config) (m : Machine) : Prop where
  serving : ∃ ps p, m.pulls = ps ++ [p] ∧ (∀ q ∈ ps, q.hasExited = true) ∧ p.dispatching = true
  recs : hostRecs (cStr cfg.host) m.coll = [⟨cStr cfg.host, cfg.port⟩]

section

variable {cfg : Config} {m : Machine}

theorem Launched.leads {ps : List Pull} {rs : List HostDoc} (h : Launched cfg ps rs m)
    (hps : ∀ p ∈ ps, p.hasExited = true ∧ p.lock = none) : (rs = [] → ∃ u, Leads cfg m u ∧ Up cfg u) ∧
      (rs ≠ [] → ∃ u, Leads cfg m u ∧ (∀ p ∈ u.pulls, p.hasExited = true) ∧ u.pulld ≠ .exited ∧ u.Idle ∧
        hostRecs (cStr cfg.host) u.coll = rs) := by
  obtain ⟨coll, file, pulls, pulld, lock⟩ := m
  obtain ⟨hpulls, hrecs, hpulld, hlock⟩ := h
  obtain rfl : pulls = ps ++ [Pull.start cfg] := hpulls
  obtain rfl : lock = none := hlock
  obtain ⟨lock, hinit⟩ := @leads_init cfg coll file ps (fun p hp => (hps p hp).2) pulld
  subst hrecs
  constructor
  · intro hnone
    obtain ⟨p, hp, hup⟩ := @leads_up cfg coll file ps hnone lock pulld
    refine ⟨_, hinit.trans hup, ⟨ps, p, rfl, fun q hq => (hps q hq).1, hp⟩, ?_⟩
    show Keyed.slot _ _ _ = _
    rw [Keyed.slot_insert, if_pos rfl, show Keyed.slot HostDoc.host _ coll = [] from hnone]
    rfl
  · intro hsome
    obtain ⟨p, hp, hdown⟩ := @leads_down cfg coll file ps hsome lock pulld
    have hidle : pulld = .openPid ∨ ∃ i, pulld = .waiting i := by
      rw [show pulld = _ from hpulld]
      split_ifs
      · exact .inl rfl
      · exact .inr ⟨_, rfl⟩
    refine ⟨_, hinit.trans hdown, ?_, ?_, hidle, rfl⟩
    · rw [List.forall_mem_append, List.forall_mem_singleton]
      exact ⟨fun q hq => (hps q hq).1, hp⟩
    · rcases hidle with rfl | ⟨i, rfl⟩ <;> (intro hexited; cases hexited)

theorem leads_up_of_idle (n : Nat) (h : Ready cfg m) (hexited : ∀ p ∈ m.pulls, p.hasExited = true)
    (hpulld : m.pulld ≠ .exited) (hidle : m.Idle) (hn : (hostRecs (cStr cfg.host) m.coll).length = n) :
    ∃ u, Leads cfg m u ∧ Up cfg u := by
  induction n using Nat.strong_induction_on generalizing m with
  | _ n ih =>
    obtain ⟨t, rs, hleads, hlaunched, hrs⟩ := launch h hexited hpulld
    obtain ⟨hup, hdown⟩ := hlaunched.leads fun p hp => ⟨hexited p hp, h.exited p hp (hexited p hp)⟩
    have hlen : rs.length = n - 1 := by
      rw [hrs hidle, List.length_tail, hn]
    by_cases hnil : rs = []
    · obtain ⟨u, hu, hup⟩ := hup hnil
      exact ⟨u, hleads.trans hu, hup⟩
    · obtain ⟨v, hv, hexited', hpulld', hidle', hrecs⟩ := hdown hnil
      have hpos : 0 < rs.length := List.length_pos_iff.mpr hnil
      obtain ⟨u, hu, hup⟩ := ih (n - 1) (by omega) ((hleads.trans hv).ready h) hexited' hpulld' hidle' (hrecs ▸ hlen)
      exact ⟨u, (hleads.trans hv).trans hu, hup⟩

theorem leads_up_of_exited (h : Ready cfg m) (hexited : ∀ p ∈ m.pulls, p.hasExited = true)
    (hpulld : m.pulld ≠ .exited) : ∃ u, Leads cfg m u ∧ Up cfg u := by
  obtain ⟨t, rs, hleads, hlaunched, -⟩ := launch h hexited hpulld
  obtain ⟨hup, hdown⟩ := hlaunched.leads fun p hp => ⟨hexited p hp, h.exited p hp (hexited p hp)⟩
  by_cases hnil : rs = []
  · obtain ⟨u, hu, hup⟩ := hup hnil
    exact ⟨u, hleads.trans hu, hup⟩
  · obtain ⟨v, hv, hexited', hpulld', hidle, hrecs⟩ := hdown hnil
    obtain ⟨u, hu, hup⟩ := leads_up_of_idle rs.length ((hleads.trans hv).ready h) hexited' hpulld' hidle
      (congrArg List.length hrecs)
    exact ⟨u, (hleads.trans hv).trans hu, hup⟩

/-- **The service comes back**: from every state that a machine can get into while the database answers, with any other
failures, signals, kills and instances started by hand, in which `pulld` runs, the steps of `pulld` and of the instances
can lead to one in which an instance serves; and where no instance is left, to one in which a single instance serves and
the host has its record and no other. -/
theorem service_recovers {coll : List HostDoc} {ls : List MachineLabel}
    (h : Runs (machineStep cfg) (fun _ _ => True) (Machine.boot coll) ls m) (hpulld : m.pulld ≠ .exited) :
    (∃ u, Leads cfg m u ∧ ∃ p ∈ u.pulls, p.dispatching = true) ∧
      ((∀ p ∈ m.pulls, p.hasExited = true) → ∃ u, Leads cfg m u ∧ Up cfg u) := by
  have hboot : Ready cfg (Machine.boot coll) :=
    ⟨List.forall_mem_nil _, trivial, List.forall_mem_nil _, .inl rfl, fun i hi => by cases hi⟩
  have hready : Ready cfg m := h.inv (Ready cfg) hboot fun _ _ _ ht _ hstep => ht.step hstep
  refine ⟨?_, fun hexited => leads_up_of_exited hready hexited hpulld⟩
  obtain ⟨t, ht, hready', hpulld', hserving | hexited⟩ := leads_settled hready hpulld
  · exact ⟨t, ht, hserving⟩
  · obtain ⟨u, hu, ⟨ps, p, hpulls, -, hp⟩, -⟩ := leads_up_of_exited hready' hexited hpulld'
    exact ⟨u, ht.trans hu, p, hpulls ▸ List.mem_append_right _ (List.mem_singleton_self p), hp⟩

end

/-- Two records are left of instances that are gone, `pulld` is killed and started again, and an instance that has been
started by hand is killed while it registers. -/
def crashed : List MachineLabel :=
  [.pulld true, .startPull] ++ .replicate 4 (.pull 0 true) ++ [.killPulld, .startPulld, .killPull 0, .pulld true]

def crashedEnd : Machine :=
  (check (machineStep (watchConfig true)) (fun _ _ => True) crashed
    (Machine.boot [⟨lit "10.0.0.1", 8080⟩, ⟨lit "10.0.0.1", 8080⟩])).get (by decide)

theorem service_recovers_crashed : ∃ u, Leads (watchConfig true) crashedEnd u ∧ Up (watchConfig true) u := by
  refine (@service_recovers (watchConfig true) crashedEnd _ crashed (runs_get _) ?_).2 (by decide)
  intro h
  have hpoint : crashedEnd.pulld = .lockPid 0 := rfl
  rw [hpoint] at h
  cases h

end PullStream
