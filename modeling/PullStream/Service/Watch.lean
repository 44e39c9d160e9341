import PullStream.App.Machine
import PullStream.Base.Keyed
import PullStream.Base.Run
/-!
# Does `pulld` unregister a service that runs?

`check_process_alive` unlocks the pid file before it asks for the record of the host, and without the
`daemon` setting nobody locks the file at all; so the record it removes may be that of an instance that
runs. An instance that is told to end between its query and its insert removes a record it has not
inserted. If every removal of these two kinds is made while no running instance has its record in the
collection (`Machine.removesStale`), every instance that has registered and goes on is registered, in every
reachable state (`services_stay_registered`): the collection then holds at least as many records of the
host as there are instances that have put one there (`Watched`).
-/

namespace PullStream

open Transition ServerBiz

/-- `pulld`, or an instance that has no record of its own, removes the record of the host only while no
instance has one. -/
def Machine.removesStale (cfg : Config) (m : Machine) : MachineLabel → Bool
  | .pulld _ =>
    match m.pulld with
    | .removeHost (.call _ _) => m.pulls.all fun p => !p.record
    | _ => true
  | .pull i _ =>
    match m.pulls[i]? with
    | some p =>
      match p.point with
      | .terminal (.call _ _) =>
        p.record || decide (cStr p.host ≠ cStr cfg.host) || m.pulls.all fun p => !p.record
      | _ => true
    | none => true
  | _ => true

/-- The records of a host. -/
def hostRecs (host : Str) (coll : List HostDoc) : List HostDoc := Keyed.slot HostDoc.host host coll

/-! ### What a step of an instance does to the records -/

/-- The program and the trace variable of an instance agree with where it stands. -/
def Pull.Stage (cfg : Config) (p : Pull) : Prop :=
  match p.point with
  | .openPid | .lockPid _ | .init | .exited => p.record = false
  | .register prog =>
    (prog = hostRegister cfg.host cfg.port ∨ prog = registerAbsent cfg.host cfg.port ∨
      prog = registerInsert cfg.host cfg.port) ∧ p.record = false ∨
    ∃ registered, prog = .ret registered ∧ p.record = registered
  | .evhttpStart | .dispatch | .unlink => p.record = true
  | .terminal prog => prog = removeHost p.host ∨ ∃ ret, prog = .ret ret ∧ p.record = false

/-- A step of an instance leaves the collection, or inserts the host, or removes its own host. -/
inductive PullStep (cfg : Config) (coll : List HostDoc) (p : Pull) : Pull → List HostDoc → Prop
  | quiet {p' : Pull} (hstage : p'.Stage cfg) (hrecord : p'.record = true → p.record = true) :
      PullStep cfg coll p p' coll
  | insert {p' : Pull} (hstage : p'.Stage cfg) (hrecord : p.record = false) :
      PullStep cfg coll p p' (coll ++ [⟨cStr cfg.host, cfg.port⟩])
  | remove {p' : Pull} {c : HostCall} {k : HostReply c → HostAct Int} (hpoint : p.point = .terminal (.call c k))
      (hstage : p'.Stage cfg) (hrecord : p'.record = false) :
      PullStep cfg coll p p' (coll.eraseP fun d => d.host = cStr p.host)

section

variable {cfg : Config} {ok : Bool} {m m' : Machine} {locked : Nat → Bool} {p p' : Pull}
  {x : Pull × List HostDoc × Nat}

theorem Pull.stage_start (cfg : Config) : (Pull.start cfg).Stage cfg := by
  unfold Pull.start Pull.Stage
  split_ifs <;> rfl

theorem Pull.stage_exit (cfg : Config) (p : Pull) : p.exit.Stage cfg := rfl

theorem removeHost_eq (host : Str) :
    removeHost host = .call (.remove (cStr host)) fun (removed : Bool) =>
      .ret (if removed then ErrorCode.errorOk.val else ErrorCode.recErrorMongodb.val) := by
  refine congrArg (Prog.call _) (funext fun (removed : Bool) => ?_)
  cases removed <;> rfl

/-- **What a step of an instance does.** -/
theorem Pull.step_cases (hs : p.Stage cfg) (h : p.step cfg ok m locked = some x) :
    PullStep cfg m.coll p x.1 x.2.1 := by
  obtain ⟨point, host, lock, record⟩ := p
  cases point with
  | openPid | init | evhttpStart =>
    cases h
    cases ok
    · exact .quiet (Pull.stage_exit cfg _) nofun
    · refine .quiet ?_ id
      first | exact .inl ⟨.inl rfl, hs⟩ | exact hs
  | lockPid fd =>
    cases h
    dsimp only
    split_ifs
    · exact .quiet (Pull.stage_exit cfg _) nofun
    · exact .quiet hs id
  | dispatch =>
    cases h
    exact .quiet hs id
  | unlink =>
    cases h
    exact .quiet (Pull.stage_exit cfg _) nofun
  | exited => cases h
  | register prog =>
    obtain ⟨rfl | rfl | rfl, hrec⟩ | ⟨registered, rfl, hrec⟩ := hs
    · rw [hostRegister_eq] at h
      cases h
      refine .quiet ?_ id
      dsimp only [Pull.goto, Pull.noteCall, Pull.Stage]
      split_ifs
      · exact .inr ⟨false, rfl, hrec⟩
      · exact .inl ⟨.inr (.inl rfl), hrec⟩
    · rw [registerAbsent_eq] at h
      cases h
      exact .quiet (.inl ⟨.inr (.inr rfl), hrec⟩) id
    · cases h
      exact .insert (.inr ⟨true, rfl, rfl⟩) hrec
    · cases h
      cases registered
      · exact .quiet (Pull.stage_exit cfg _) nofun
      · exact .quiet hrec id
  | terminal prog =>
    obtain hprog | ⟨ret, rfl, hrec⟩ := hs
    · obtain rfl : prog = removeHost host := hprog
      rw [removeHost_eq] at h ⊢
      cases h
      exact .remove rfl (.inr ⟨_, rfl, rfl⟩) rfl
    · cases h
      exact .quiet (Pull.stage_exit cfg _) nofun

theorem Pull.stage_signal (hs : p.signal = some p') : p'.Stage cfg ∧ (p'.record = true → p.record = true) := by
  obtain ⟨point, host, lock, record⟩ := p
  cases point with
  | openPid | lockPid | init =>
    cases hs
    exact ⟨Pull.stage_exit cfg _, nofun⟩
  | exited => cases hs
  | register | evhttpStart | dispatch | unlink | terminal =>
    cases hs
    exact ⟨.inl rfl, id⟩

theorem Pull.record_of_serving (hs : p.Stage cfg) (h : p.serving = true) : p.record = true := by
  obtain ⟨point, host, lock, record⟩ := p
  cases point with
  | evhttpStart | dispatch => exact hs
  | _ => cases h

end

/-! ### What a step of `pulld` does to the records -/

/-- Where `pulld` is inside a function of its own. -/
def PulldPoint.Stage (cfg : Config) : PulldPoint → Prop
  | .isHostExist prog => prog = Pulld.isHostExist cfg.host ∨ ∃ found, prog = .ret found
  | .removeHost prog => prog = Pulld.removeHost cfg.host ∨ ∃ ret, prog = .ret ret
  | _ => True

/-- A step of `pulld` leaves the records, or removes that of the host; it may launch an instance. -/
structure PulldStep (cfg : Config) (m m' : Machine) : Prop where
  stage : m'.pulld.Stage cfg
  pulls : m'.pulls = m.pulls ∨ m'.pulls = m.pulls ++ [Pull.start cfg]
  coll : m'.coll = m.coll ∨ (∃ c k, m.pulld = .removeHost (.call c k)) ∧
    m'.coll = m.coll.eraseP fun d => d.host = cStr cfg.host

theorem pulldStep_cases {cfg : Config} {ok : Bool} {m m' : Machine} (hs : m.pulld.Stage cfg)
    (h : m.pulldStep cfg ok = some m') : PulldStep cfg m m' := by
  obtain ⟨coll, file, pulls, pulld, lock⟩ := m
  cases pulld with
  | openPid =>
    cases h
    cases ok <;> exact ⟨trivial, .inl rfl, .inl rfl⟩
  | lockPid fd =>
    cases h
    dsimp only
    split_ifs <;> exact ⟨trivial, .inl rfl, .inl rfl⟩
  | closePid locked =>
    cases h
    cases locked
    · exact ⟨trivial, .inl rfl, .inl rfl⟩
    · exact ⟨.inl rfl, .inl rfl, .inl rfl⟩
  | isHostExist prog =>
    obtain rfl | ⟨found, rfl⟩ := hs
    · cases h
      refine ⟨.inr ?_, .inl rfl, .inl rfl⟩
      dsimp only
      cases (answerHost true (.findOne (cStr cfg.host)) coll).1 <;> exact ⟨_, rfl⟩
    · cases h
      cases found
      · exact ⟨trivial, .inl rfl, .inl rfl⟩
      · exact ⟨.inl rfl, .inl rfl, .inl rfl⟩
  | removeHost prog =>
    obtain rfl | ⟨ret, rfl⟩ := hs
    · cases h
      exact ⟨.inr ⟨_, rfl⟩, .inl rfl, .inr ⟨⟨_, _, rfl⟩, rfl⟩⟩
    · cases h
      exact ⟨trivial, .inl rfl, .inl rfl⟩
  | system =>
    cases h
    cases ok
    · exact ⟨trivial, .inl rfl, .inl rfl⟩
    · refine ⟨?_, .inr rfl, .inl rfl⟩
      dsimp only
      split_ifs <;> trivial
  | waiting i =>
    simp only [Machine.pulldStep] at h
    split at h
    · split_ifs at h
      cases h
      exact ⟨trivial, .inl rfl, .inl rfl⟩
    · cases h
  | exited => cases h

/-! ### The invariant -/

/-- The collection holds a record of the host for every instance that has put one there. -/
structure Watched (cfg : Config) (m : Machine) : Prop where
  stage : ∀ p ∈ m.pulls, p.Stage cfg
  pulld : m.pulld.Stage cfg
  count : m.pulls.countP (·.record) ≤ (hostRecs (cStr cfg.host) m.coll).length

namespace Watched

section

variable {cfg : Config} {m m' : Machine} {l : MachineLabel} {i : Nat} {p p' : Pull}

theorem stage_set (h : Watched cfg m) (hs : p'.Stage cfg) : ∀ q ∈ m.pulls.set i p', q.Stage cfg := by
  intro q hq
  rcases List.mem_or_eq_of_mem_set hq with hq | rfl
  · exact h.stage q hq
  · exact hs

theorem countP_set (hi : m.pulls[i]? = some p) (p' : Pull) :
    (m.pulls.set i p').countP (·.record) + (if p.record then 1 else 0) =
      m.pulls.countP (·.record) + if p'.record then 1 else 0 := by
  obtain ⟨hlt, rfl⟩ := List.getElem?_eq_some_iff.mp hi
  have hle : (if (m.pulls[i]).record then 1 else 0) ≤ m.pulls.countP (·.record) := by
    split_ifs with hrec
    · exact List.countP_pos_iff.mpr ⟨_, List.getElem_mem hlt, hrec⟩
    · exact Nat.zero_le _
  rw [List.countP_set hlt]
  omega

theorem count_set (h : Watched cfg m) (hi : m.pulls[i]? = some p)
    (hrec : p'.record = true → p.record = true) :
    (m.pulls.set i p').countP (·.record) ≤ (hostRecs (cStr cfg.host) m.coll).length := by
  have hset := countP_set hi p'
  have hcount := h.count
  by_cases hp' : p'.record = true
  · rw [if_pos hp', if_pos (hrec hp')] at hset
    omega
  · rw [if_neg hp'] at hset
    omega

theorem countP_eq_zero (h : ∀ p ∈ m.pulls, p.record = false) : m.pulls.countP (·.record) = 0 := by
  rw [List.countP_eq_zero]
  exact fun p hp => by simp [h p hp]

theorem pull (h : Watched cfg m) (hi : m.pulls[i]? = some p) {coll : List HostDoc} {file : Nat}
    (hstale : ∀ c k, p.point = .terminal (.call c k) → p.record = true ∨ cStr p.host ≠ cStr cfg.host ∨
      ∀ q ∈ m.pulls, q.record = false)
    (hstep : PullStep cfg m.coll p p' coll) : Watched cfg { m with pulls := m.pulls.set i p', coll, file } := by
  have hset := countP_set hi p'
  have hcount := h.count
  cases hstep with
  | quiet hs hrec => exact ⟨h.stage_set hs, h.pulld, h.count_set hi hrec⟩
  | insert hs hrec =>
    refine ⟨h.stage_set hs, h.pulld, ?_⟩
    show (m.pulls.set i p').countP (·.record) ≤ (Keyed.slot _ _ _).length
    rw [Keyed.slot_insert, if_pos rfl, List.length_append, List.length_singleton]
    unfold hostRecs at hcount
    split_ifs at hset <;> omega
  | remove hpoint hs hrec =>
    refine ⟨h.stage_set hs, h.pulld, ?_⟩
    show (m.pulls.set i p').countP (·.record) ≤ (Keyed.slot _ _ _).length
    rw [hrec, if_neg Bool.false_ne_true] at hset
    unfold hostRecs at hcount
    by_cases hhost : cStr cfg.host = cStr p.host
    · rw [hhost, Keyed.slot_eraseP_self, List.length_tail, ← hhost]
      obtain hown | hne | hnone := hstale _ _ hpoint
      · rw [if_pos hown] at hset
        omega
      · exact absurd hhost.symm hne
      · have hzero := countP_eq_zero hnone
        omega
    · rw [Keyed.slot_eraseP_ne HostDoc.host hhost]
      omega

theorem pulld_step (h : Watched cfg m) (hstep : PulldStep cfg m m')
    (hstale : ∀ c k, m.pulld = .removeHost (.call c k) → ∀ q ∈ m.pulls, q.record = false) :
    Watched cfg m' := by
  have hcountP : m'.pulls.countP (·.record) = m.pulls.countP (·.record) := by
    obtain hp | hp := hstep.pulls
    · rw [hp]
    · rw [hp, List.countP_append]
      rfl
  refine ⟨fun q hq => ?_, hstep.stage, ?_⟩
  · obtain hp | hp := hstep.pulls
    · exact h.stage q (hp ▸ hq)
    · rw [hp] at hq
      rcases List.mem_append.mp hq with hq | hq
      · exact h.stage q hq
      · rw [List.mem_singleton.mp hq]
        exact Pull.stage_start cfg
  · rw [hcountP]
    obtain hc | ⟨⟨c, k, hpoint⟩, -⟩ := hstep.coll
    · rw [hc]
      exact h.count
    · rw [countP_eq_zero (hstale c k hpoint)]
      exact Nat.zero_le _

theorem step (h : Watched cfg m) (hstale : m.removesStale cfg l = true)
    (hstep : machineStep cfg l m = some m') : Watched cfg m' := by
  cases l with
  | startPull =>
    cases hstep
    refine ⟨fun q hq => ?_, h.pulld, ?_⟩
    · rcases List.mem_append.mp hq with hq | hq
      · exact h.stage q hq
      · rw [List.mem_singleton.mp hq]
        exact Pull.stage_start cfg
    · show (m.pulls ++ _).countP _ ≤ _
      rw [List.countP_append]
      exact h.count
  | pull i ok =>
    obtain ⟨p, hi, hp⟩ := Option.bind_eq_some_iff.mp hstep
    obtain ⟨x, hx, rfl⟩ := Option.map_eq_some_iff.mp hp
    apply h.pull hi _ (Pull.step_cases (h.stage p (List.mem_of_getElem? hi)) hx)
    intro c k hpoint
    simp only [Machine.removesStale, hi, hpoint] at hstale
    simpa [or_assoc] using hstale
  | signal i =>
    obtain ⟨p, hi, hp⟩ := Option.bind_eq_some_iff.mp hstep
    obtain ⟨p', hp', rfl⟩ := Option.map_eq_some_iff.mp hp
    obtain ⟨hs, hrec⟩ : p'.Stage cfg ∧ (p'.record = true → p.record = true) := Pull.stage_signal hp'
    exact ⟨h.stage_set hs, h.pulld, h.count_set hi hrec⟩
  | killPull i =>
    obtain ⟨p, hi, hp⟩ := Option.bind_eq_some_iff.mp hstep
    split_ifs at hp
    cases hp
    exact ⟨h.stage_set (Pull.stage_exit cfg p), h.pulld, h.count_set hi nofun⟩
  | startPulld =>
    simp only [machineStep] at hstep
    split at hstep
    · cases hstep
      exact ⟨h.stage, trivial, h.count⟩
    · cases hstep
  | pulld ok =>
    apply h.pulld_step (pulldStep_cases h.pulld hstep)
    intro c k hpoint
    simp only [Machine.removesStale, hpoint] at hstale
    simpa using hstale
  | killPulld =>
    cases hstep
    exact ⟨h.stage, trivial, h.count⟩

theorem registered (h : Watched cfg m) : m.Registered cfg := by
  intro p hp hserving
  have hrec := Pull.record_of_serving (h.stage p hp) hserving
  have hpos : 0 < m.pulls.countP (·.record) := List.countP_pos_iff.mpr ⟨p, hp, hrec⟩
  obtain ⟨d, hd⟩ := List.exists_mem_of_length_pos (Nat.lt_of_lt_of_le hpos h.count)
  obtain ⟨hmem, hhost⟩ := (Keyed.mem_slot HostDoc.host).mp hd
  exact List.mem_map.mpr ⟨d, hmem, hhost⟩

end

end Watched

/-- **Services stay registered** in every run in which only stale records are removed by others. -/
theorem services_stay_registered {cfg : Config} {coll : List HostDoc} {ls : List MachineLabel} {m : Machine}
    (h : Runs (machineStep cfg) (fun m l => m.removesStale cfg l = true) (Machine.boot coll) ls m) :
    m.Registered cfg := by
  have hboot : Watched cfg (Machine.boot coll) := ⟨nofun, trivial, Nat.zero_le _⟩
  exact (h.inv (Watched cfg) hboot fun t l u ht hstale hstep => ht.step hstale hstep).registered

/-! ### A cycle that finds a stale record, and two that find a record in use -/

def watchConfig (daemon : Bool) : Config := ⟨daemon, lit "10.0.0.1", 8080⟩

/-- `pulld` finds the record of an instance that is gone and launches a new one, which serves. -/
def launchAnew : List MachineLabel :=
  .replicate 8 (.pulld true) ++ .replicate 8 (.pull 0 true) ++ .replicate 3 (.pulld true)

def launchAnewEnd : Machine :=
  (check (machineStep (watchConfig true)) (fun m l => m.removesStale (watchConfig true) l = true) launchAnew
    (Machine.boot [⟨lit "10.0.0.1", 8080⟩])).get (by decide)

theorem services_stay_registered_anew : launchAnewEnd.Registered (watchConfig true) :=
  services_stay_registered (runs_get _)

/-- An instance started by hand serves without a lock, and `pulld` begins a cycle. -/
def handStarted : List MachineLabel :=
  .startPull :: .replicate 6 (.pull 0 true) ++ .replicate 6 (.pulld true)

def handStartedEnd : Machine :=
  (check (machineStep (watchConfig false)) (fun _ _ => True) handStarted (Machine.boot [])).get (by decide)

/-- An instance is started by hand after `pulld` has found the file unlocked, and serves before `pulld`
asks for the record. -/
def startedMeanwhile : List MachineLabel :=
  .replicate 3 (.pulld true) ++ .startPull :: .replicate 8 (.pull 0 true) ++ .replicate 3 (.pulld true)

def startedMeanwhileEnd : Machine :=
  (check (machineStep (watchConfig true)) (fun _ _ => True) startedMeanwhile (Machine.boot [])).get (by decide)

theorem running_service_unregistered :
    (¬ ∀ (host : Str) (port : Int) (coll : List HostDoc) (ls : List MachineLabel) (m : Machine),
      Runs (machineStep ⟨false, host, port⟩) (fun _ _ => True) (Machine.boot coll) ls m →
      m.Registered ⟨false, host, port⟩) ∧
    ¬ ∀ (host : Str) (port : Int) (coll : List HostDoc) (ls : List MachineLabel) (m : Machine),
      Runs (machineStep ⟨true, host, port⟩) (fun _ _ => True) (Machine.boot coll) ls m →
      m.Registered ⟨true, host, port⟩ := by
  refine ⟨fun h => ?_, fun h => ?_⟩
  · have hreg := h (lit "10.0.0.1") 8080 [] handStarted handStartedEnd (runs_get _)
    revert hreg
    unfold Machine.Registered
    decide
  · have hreg := h (lit "10.0.0.1") 8080 [] startedMeanwhile startedMeanwhileEnd (runs_get _)
    revert hreg
    unfold Machine.Registered
    decide

end PullStream
