import PullStream.Service.Watch
/-!
# The pid file keeps services apart

A daemon locks the pid file before it looks for its host and registers it, and holds the lock until its process ends.
An instance that ends by itself removes the file: whoever has opened it before and locks it afterwards holds the lock
of a file that is no longer there, and keeps nobody away. If no instance is between its `open` and its `lockf` when
the file is removed (`Machine.unlinksAlone`), then of all instances, started by `pulld` and by hand, killed and told
to end at any time, at most one runs, and the host has at most one record (`one_service`).
-/

namespace PullStream

open Transition ServerBiz

namespace Pull

/-- The instance has got past the lock. -/
def running (p : Pull) : Bool :=
  match p.point with
  | .openPid | .lockPid _ | .exited => false
  | _ => true

/-- The instance has opened the pid file and is about to lock it. -/
def locking (p : Pull) : Bool :=
  match p.point with
  | .lockPid _ => true
  | _ => false

/-- Its query has not found the host, and it has not inserted it yet. -/
def inserting (p : Pull) : Bool :=
  match p.point with
  | .register (.call (.setHost _ _) _) | .register (.call (.insert _) _) => true
  | _ => false

/-- What an instance has locked: the file at the path of the pid file, from `lockf` on. -/
def Held (file : Nat) (p : Pull) : Prop :=
  match p.point with
  | .openPid | .exited => p.lock = none
  | .lockPid fd => p.lock = none ∧ fd = file
  | _ => p.lock = some file

end Pull

/-- An instance removes the pid file while no other is about to lock it. -/
def Machine.unlinksAlone (m : Machine) : MachineLabel → Bool
  | .pull i _ =>
    match m.pulls[i]? with
    | some p =>
      match p.point with
      | .unlink => m.pulls.all fun q => !q.locking
      | _ => true
    | none => true
  | _ => true

section

variable {cfg : Config} {ok : Bool} {m m' : Machine} {l : MachineLabel} {p p' q : Pull} {i j file : Nat}
  {x : Pull × List HostDoc × Nat} {coll coll' : List HostDoc}

theorem Pull.Held.lock (h : p.Held file) : p.lock = if p.running then some file else none := by
  obtain ⟨point, host, lock, record⟩ := p
  cases point with
  | lockPid fd => exact h.1
  | _ => exact h

theorem Pull.Held.other (h : p.Held file) (hrun : p.running = false) (hlocking : p.locking = false) (file' : Nat) :
    p.Held file' := by
  obtain ⟨point, host, lock, record⟩ := p
  cases point with
  | openPid | exited => exact h
  | lockPid fd => cases hlocking
  | _ => cases hrun

/-- What a step of an instance does to the lock and to the records of the host. -/
structure Advance (cfg : Config) (m : Machine) (p : Pull) (x : Pull × List HostDoc × Nat) : Prop where
  stage : x.1.Stage cfg
  held : x.1.Held x.2.2
  file : x.2.2 = m.file ∨ p.point = .unlink
  running : x.1.running = true → p.running = true ∨ m.locked m.file = false
  coll : (∃ host, x.2.1 = m.coll.eraseP fun d => d.host = host) ∨ x.2.1 = m.coll ∨
    p.inserting = true ∧ x.2.1 = m.coll ++ [⟨cStr cfg.host, cfg.port⟩]
  inserting : x.1.inserting = true →
    x.2.1 = m.coll ∧ (p.inserting = true ∨ hostRecs (cStr cfg.host) m.coll = [])

theorem hostRecs_of_find? {host : Str} (h : (coll.find? fun d => d.host = host) = none) : hostRecs host coll = [] := by
  rw [hostRecs, ← List.head?_eq_none_iff, ← Keyed.find?_slot]
  exact h

theorem PullStep.stage (h : PullStep cfg coll p p' coll') : p'.Stage cfg := by
  cases h with
  | quiet hs | insert hs | remove _ hs => exact hs

/-- **What a step of an instance does.** -/
theorem Pull.advance (hs : p.Stage cfg) (hheld : p.Held m.file) (h : p.step cfg ok m m.locked = some x) :
    Advance cfg m p x := by
  have hstage := (Pull.step_cases hs h).stage
  have hexit {q : Pull} : Advance cfg m p (q.exit, m.coll, m.file) :=
    ⟨Pull.stage_exit cfg q, rfl, .inl rfl, nofun, .inr (.inl rfl), nofun⟩
  obtain ⟨point, host, lock, record⟩ := p
  cases point with
  | openPid =>
    cases h
    cases ok
    · exact hexit
    · exact ⟨hstage, ⟨hheld, rfl⟩, .inl rfl, nofun, .inr (.inl rfl), nofun⟩
  | lockPid fd =>
    cases h
    obtain ⟨hlock, rfl⟩ := hheld
    dsimp only at hstage ⊢
    split_ifs with hlocked
    · exact hexit
    · rw [if_neg hlocked] at hstage
      exact ⟨hstage, rfl, .inl rfl, fun _ => .inr (by simpa using hlocked), .inr (.inl rfl), nofun⟩
  | init =>
    cases h
    cases ok
    · exact hexit
    · exact ⟨hstage, hheld, .inl rfl, fun _ => .inl rfl, .inr (.inl rfl), nofun⟩
  | register prog =>
    obtain ⟨rfl | rfl | rfl, hrec⟩ | ⟨registered, rfl, hrec⟩ := hs
    · rw [hostRegister_eq] at h
      cases h
      refine ⟨hstage, hheld, .inl rfl, fun _ => .inl rfl, .inr (.inl rfl), fun hins => ⟨rfl, .inr ?_⟩⟩
      have hfind (hfound : (answerHost true (.findOne (cStr cfg.host)) m.coll).1.isSome = true) : False := by
        simp only [Pull.inserting, Pull.goto] at hins
        rw [if_pos hfound] at hins
        cases hins
      exact hostRecs_of_find? (Option.not_isSome_iff_eq_none.mp hfind)
    · rw [registerAbsent_eq] at h
      cases h
      refine ⟨hstage, hheld, .inl rfl, fun _ => .inl rfl, .inr (.inl rfl), fun _ => ⟨rfl, .inl ?_⟩⟩
      rw [registerAbsent_eq]
      rfl
    · cases h
      exact ⟨hstage, hheld, .inl rfl, fun _ => .inl rfl, .inr (.inr ⟨rfl, rfl⟩), nofun⟩
    · cases h
      cases registered
      · exact hexit
      · exact ⟨hstage, hheld, .inl rfl, fun _ => .inl rfl, .inr (.inl rfl), nofun⟩
  | evhttpStart =>
    cases h
    cases ok
    · exact hexit
    · exact ⟨hstage, hheld, .inl rfl, fun _ => .inl rfl, .inr (.inl rfl), nofun⟩
  | dispatch =>
    cases h
    exact ⟨hstage, hheld, .inl rfl, fun _ => .inl rfl, .inr (.inl rfl), nofun⟩
  | unlink =>
    cases h
    exact ⟨hstage, rfl, .inr rfl, nofun, .inr (.inl rfl), nofun⟩
  | exited => cases h
  | terminal prog =>
    obtain hprog | ⟨ret, rfl, hrec⟩ := hs
    · obtain rfl : prog = removeHost host := hprog
      rw [removeHost_eq] at h
      cases h
      exact ⟨hstage, hheld, .inl rfl, fun _ => .inl rfl, .inl ⟨_, rfl⟩, nofun⟩
    · cases h
      exact hexit

theorem Pull.running_of_inserting (h : p.inserting = true) : p.running = true := by
  obtain ⟨point, host, lock, record⟩ := p
  cases point with
  | register prog => rfl
  | _ => cases h

/-! ### The invariant -/

/-- At most one instance has got past the lock, and the host has no record while one is about to insert it. -/
structure Single (cfg : Config) (m : Machine) : Prop where
  stage : ∀ p ∈ m.pulls, p.Stage cfg
  pulld : m.pulld.Stage cfg
  held : ∀ p ∈ m.pulls, p.Held m.file
  alone : ∀ (i j : Nat) (p q : Pull), m.pulls[i]? = some p → m.pulls[j]? = some q →
    p.running = true → q.running = true → i = j
  recs : (hostRecs (cStr cfg.host) m.coll).length ≤ 1
  absent : ∀ p ∈ m.pulls, p.inserting = true → hostRecs (cStr cfg.host) m.coll = []

theorem length_hostRecs_eraseP (host host' : Str) :
    (hostRecs host (coll.eraseP fun d => d.host = host')).length ≤ (hostRecs host coll).length := by
  by_cases hhost : host = host'
  · subst hhost
    rw [hostRecs, Keyed.slot_eraseP_self, List.length_tail]
    exact Nat.sub_le _ 1
  · rw [hostRecs, Keyed.slot_eraseP_ne HostDoc.host hhost]
    exact Nat.le_refl _

theorem length_hostRecs_le (host : Str)
    (hcoll : (∃ host', coll' = coll.eraseP fun d => d.host = host') ∨ coll' = coll) :
    (hostRecs host coll').length ≤ (hostRecs host coll).length := by
  rcases hcoll with ⟨host', rfl⟩ | rfl
  · exact length_hostRecs_eraseP host host'
  · exact Nat.le_refl _

theorem hostRecs_eq_nil {host : Str} (hnone : hostRecs host coll = [])
    (hcoll : (∃ host', coll' = coll.eraseP fun d => d.host = host') ∨ coll' = coll) : hostRecs host coll' = [] := by
  have hle := length_hostRecs_le host hcoll
  rw [hnone] at hle
  exact List.length_eq_zero_iff.mp (Nat.le_zero.mp hle)

namespace Single

theorem running_false (h : Single cfg m) (hlocked : m.locked m.file = false) (hq : q ∈ m.pulls) :
    q.running = false := by
  by_contra hrun
  have hlock := (h.held q hq).lock
  rw [if_pos (by simpa using hrun)] at hlock
  have hany : m.locked m.file = true := by
    rw [Machine.locked, Bool.or_eq_true]
    exact .inr (List.any_eq_true.mpr ⟨q, hq, by simpa using hlock⟩)
  exact Bool.false_ne_true (hlocked.symm.trans hany)

theorem advance (h : Single cfg m) (hi : m.pulls[i]? = some p) (ha : Advance cfg m p x)
    (hunlink : x.2.2 = m.file ∨ ∀ q ∈ m.pulls, q.locking = false) :
    Single cfg { m with pulls := m.pulls.set i x.1, coll := x.2.1, file := x.2.2 } := by
  have hset {j : Nat} {q : Pull} (hq : (m.pulls.set i x.1)[j]? = some q) :
      (j = i ∧ q = x.1) ∨ j ≠ i ∧ m.pulls[j]? = some q := by
    rw [List.getElem?_set] at hq
    split_ifs at hq with hij
    · exact .inl ⟨hij.symm, (Option.some.inj hq).symm⟩
    · exact .inr ⟨Ne.symm hij, hq⟩
  have hother {j : Nat} {q : Pull} (hji : j ≠ i) (hj : m.pulls[j]? = some q) (hrun : x.1.running = true) :
      q.running = false := by
    rcases ha.running hrun with hp | hlocked
    · by_contra hq
      exact hji (h.alone j i q p hj hi (by simpa using hq) hp)
    · exact h.running_false hlocked (List.mem_of_getElem? hj)
  refine ⟨fun q hq => ?_, h.pulld, fun q hq => ?_, fun j k q r hj hk hq hr => ?_, ?_, fun q hq hins => ?_⟩
  · obtain ⟨j, hj⟩ := List.mem_iff_getElem?.mp hq
    rcases hset hj with ⟨-, rfl⟩ | ⟨-, hj⟩
    · exact ha.stage
    · exact h.stage q (List.mem_of_getElem? hj)
  · obtain ⟨j, hj⟩ := List.mem_iff_getElem?.mp hq
    rcases hset hj with ⟨-, rfl⟩ | ⟨hji, hj⟩
    · exact ha.held
    · have hold := h.held q (List.mem_of_getElem? hj)
      rcases ha.file with hfile | hpoint
      · exact hfile ▸ hold
      · rcases hunlink with hfile | hlocking
        · exact hfile ▸ hold
        · refine hold.other ?_ (hlocking q (List.mem_of_getElem? hj)) x.2.2
          by_contra hq
          have hp : p.running = true := by
            rw [Pull.running, hpoint]
          exact hji (h.alone j i q p hj hi (by simpa using hq) hp)
  · rcases hset hj with ⟨rfl, rfl⟩ | ⟨hji, hj'⟩ <;> rcases hset hk with ⟨rfl, rfl⟩ | ⟨hki, hk'⟩
    · rfl
    · exact absurd (hr.symm.trans (hother hki hk' hq)) Bool.false_ne_true.symm
    · exact absurd (hq.symm.trans (hother hji hj' hr)) Bool.false_ne_true.symm
    · exact h.alone j k q r hj' hk' hq hr
  · rcases ha.coll with hcoll | hcoll | ⟨hins, hcoll⟩
    · exact (length_hostRecs_le _ (.inl hcoll)).trans h.recs
    · exact (length_hostRecs_le _ (.inr hcoll)).trans h.recs
    · show (hostRecs _ x.2.1).length ≤ 1
      rw [hcoll, hostRecs, Keyed.slot_insert, if_pos rfl, List.length_append]
      exact Nat.le_of_eq (congrArg (· + 1) (List.length_eq_zero_iff.mpr (h.absent p (List.mem_of_getElem? hi) hins)))
  · obtain ⟨j, hj⟩ := List.mem_iff_getElem?.mp hq
    show hostRecs _ x.2.1 = []
    rcases hset hj with ⟨-, rfl⟩ | ⟨hji, hj⟩
    · obtain ⟨hcoll, hp | hnone⟩ := ha.inserting hins
      · rw [hcoll]
        exact h.absent p (List.mem_of_getElem? hi) hp
      · rw [hcoll]
        exact hnone
    · have hnone := h.absent q (List.mem_of_getElem? hj) hins
      rcases ha.coll with hcoll | hcoll | ⟨hp, -⟩
      · exact hostRecs_eq_nil hnone (.inl hcoll)
      · exact hostRecs_eq_nil hnone (.inr hcoll)
      · exact absurd (h.alone j i q p hj hi (Pull.running_of_inserting hins) (Pull.running_of_inserting hp)) hji

theorem advance_signal (h : Single cfg m) (hp : p ∈ m.pulls) (hsignal : p.signal = some p') :
    Advance cfg m p (p', m.coll, m.file) := by
  have hstage : Pull.Stage cfg p' := (Pull.stage_signal hsignal).1
  have hheld := h.held p hp
  obtain ⟨point, host, lock, record⟩ := p
  cases point with
  | openPid | lockPid | init =>
    cases hsignal
    exact ⟨hstage, rfl, .inl rfl, nofun, .inr (.inl rfl), nofun⟩
  | exited => cases hsignal
  | register | evhttpStart | dispatch | unlink | terminal =>
    cases hsignal
    exact ⟨hstage, hheld, .inl rfl, fun _ => .inl rfl, .inr (.inl rfl), nofun⟩

theorem advance_exit (m : Machine) (p : Pull) : Advance cfg m p (p.exit, m.coll, m.file) :=
  ⟨Pull.stage_exit cfg p, rfl, .inl rfl, nofun, .inr (.inl rfl), nofun⟩

theorem other (h : Single cfg m) (hdaemon : cfg.daemon = true) (hpulld : m'.pulld.Stage cfg)
    (hpulls : m'.pulls = m.pulls ∨ m'.pulls = m.pulls ++ [Pull.start cfg]) (hfile : m'.file = m.file)
    (hcoll : (∃ host, m'.coll = m.coll.eraseP fun d => d.host = host) ∨ m'.coll = m.coll) : Single cfg m' := by
  have hstart : Pull.start cfg = ⟨.openPid, [], none, false⟩ := by
    rw [Pull.start, if_pos hdaemon]
  have hmem {q : Pull} (hq : q ∈ m'.pulls) : q ∈ m.pulls ∨ q = ⟨.openPid, [], none, false⟩ := by
    rcases hpulls with hp | hp
    · exact .inl (hp ▸ hq)
    · rw [hp, hstart] at hq
      exact (List.mem_append.mp hq).imp_right List.mem_singleton.mp
  have hget {j : Nat} {q : Pull} (hj : m'.pulls[j]? = some q) (hrun : q.running = true) : m.pulls[j]? = some q := by
    rcases hpulls with hp | hp
    · exact hp ▸ hj
    · rw [hp, hstart, List.getElem?_append] at hj
      split_ifs at hj with hlt
      · exact hj
      · obtain rfl := List.mem_singleton.mp (List.mem_of_getElem? hj)
        cases hrun
  refine ⟨fun q hq => ?_, hpulld, fun q hq => ?_, fun j k q r hj hk hq hr => ?_, ?_, fun q hq hins => ?_⟩
  · rcases hmem hq with hq | rfl
    · exact h.stage q hq
    · exact rfl
  · rcases hmem hq with hq | rfl
    · exact hfile ▸ h.held q hq
    · exact rfl
  · exact h.alone j k q r (hget hj hq) (hget hk hr) hq hr
  · exact (length_hostRecs_le _ hcoll).trans h.recs
  · rcases hmem hq with hq | rfl
    · exact hostRecs_eq_nil (h.absent q hq hins) hcoll
    · cases hins

theorem file_pulldStep (hstep : m.pulldStep cfg ok = some m') : m'.file = m.file := by
  obtain ⟨coll, file, pulls, pulld, lock⟩ := m
  cases pulld with
  | openPid | closePid _ =>
    cases hstep
    rfl
  | lockPid fd | system =>
    cases hstep
    dsimp only
    split_ifs <;> rfl
  | isHostExist prog | removeHost prog =>
    cases prog <;> (cases hstep; rfl)
  | waiting i =>
    simp only [Machine.pulldStep] at hstep
    split at hstep
    · split_ifs at hstep
      cases hstep
      rfl
    · cases hstep
  | exited => cases hstep

theorem step (h : Single cfg m) (hdaemon : cfg.daemon = true) (hl : m.unlinksAlone l = true)
    (hstep : machineStep cfg l m = some m') : Single cfg m' := by
  cases l with
  | startPull =>
    cases hstep
    exact h.other hdaemon h.pulld (.inr rfl) rfl (.inr rfl)
  | pull i ok =>
    obtain ⟨p, hi, hp⟩ := Option.bind_eq_some_iff.mp hstep
    obtain ⟨x, hx, rfl⟩ := Option.map_eq_some_iff.mp hp
    have hmem := List.mem_of_getElem? hi
    have ha := Pull.advance (h.stage p hmem) (h.held p hmem) hx
    refine h.advance hi ha (ha.file.imp_right fun hpoint q hq => ?_)
    simp only [Machine.unlinksAlone, hi, hpoint, List.all_eq_true] at hl
    simpa using hl q hq
  | signal i =>
    obtain ⟨p, hi, hp⟩ := Option.bind_eq_some_iff.mp hstep
    obtain ⟨p', hp', rfl⟩ := Option.map_eq_some_iff.mp hp
    exact h.advance hi (h.advance_signal (List.mem_of_getElem? hi) hp') (.inl rfl)
  | killPull i =>
    obtain ⟨p, hi, hp⟩ := Option.bind_eq_some_iff.mp hstep
    split_ifs at hp
    cases hp
    exact h.advance hi (advance_exit m p) (.inl rfl)
  | startPulld =>
    simp only [machineStep] at hstep
    split at hstep
    · cases hstep
      exact h.other hdaemon trivial (.inl rfl) rfl (.inr rfl)
    · cases hstep
  | pulld ok =>
    have hcases := pulldStep_cases h.pulld hstep
    refine h.other hdaemon hcases.stage hcases.pulls (file_pulldStep hstep) ?_
    rcases hcases.coll with hcoll | ⟨-, hcoll⟩
    · exact .inr hcoll
    · exact .inl ⟨_, hcoll⟩
  | killPulld =>
    cases hstep
    exact h.other hdaemon trivial (.inl rfl) rfl (.inr rfl)

end Single

end

/-- **One service runs on a machine**: if `pull` is configured as a daemon, the pid file is removed while no instance
is between its `open` and its `lockf`, and the database answers, then of all instances, started and ended in any way,
at most one is past the lock, and the host has at most one record. -/
theorem one_service {cfg : Config} (hdaemon : cfg.daemon = true) {coll : List HostDoc}
    (hcoll : (hostRecs (cStr cfg.host) coll).length ≤ 1) {ls : List MachineLabel} {m : Machine}
    (h : Runs (machineStep cfg) (fun m l => m.unlinksAlone l = true) (Machine.boot coll) ls m) :
    (∀ (i j : Nat) (p q : Pull), m.pulls[i]? = some p → m.pulls[j]? = some q → p.running = true → q.running = true →
        i = j) ∧
      (hostRecs (cStr cfg.host) m.coll).length ≤ 1 := by
  have hboot : Single cfg (Machine.boot coll) :=
    ⟨List.forall_mem_nil _, trivial, List.forall_mem_nil _, fun i j p q hp => by simp [Machine.boot] at hp, hcoll,
      List.forall_mem_nil _⟩
  have hsingle : Single cfg m := h.inv (Single cfg) hboot fun _ _ _ ht hl hstep => ht.step hdaemon hl hstep
  exact ⟨hsingle.alone, hsingle.recs⟩

/-- `pulld` launches an instance, and another one is started by hand and finds the file locked. The first one ends and
removes the file, and a third takes its place. -/
def inTurn : List MachineLabel :=
  .replicate 7 (.pulld true) ++ .replicate 7 (.pull 0 true) ++ .startPull :: .replicate 2 (.pull 1 true) ++
    .replicate 3 (.pull 0 true) ++ .startPull :: .replicate 4 (.pull 2 true)

def inTurnEnd : Machine :=
  (check (machineStep (watchConfig true)) (fun m l => m.unlinksAlone l = true) inTurn (Machine.boot [])).get (by decide)

theorem one_service_in_turn :
    (∀ (i j : Nat) (p q : Pull), inTurnEnd.pulls[i]? = some p → inTurnEnd.pulls[j]? = some q → p.running = true →
        q.running = true → i = j) ∧
      (hostRecs (cStr (watchConfig true).host) inTurnEnd.coll).length ≤ 1 :=
  @one_service (watchConfig true) rfl [] (Nat.zero_le 1) inTurn inTurnEnd (runs_get _)

/-- One instance has opened the file before another removes it, and a third opens the file that takes its place. -/
example : ((check (machineStep (watchConfig true)) (fun _ _ => True)
    (.startPull :: .replicate 8 (.pull 0 true) ++ [.startPull, .pull 1 true, .pull 0 true, .pull 0 true, .startPull,
      .pull 2 true, .pull 2 true, .pull 1 true]) (Machine.boot [])).map fun m => m.pulls.map Pull.running) =
    some [false, true, true] := by decide

end PullStream
