import PullStream.Service.Watch
/-!
# The ends of an instance of `pull`

`Life` is an instance from its start to its end, together with the `host` collection, on which other processes
work too as long as they leave the records of the host alone. The instance ends where a check at start-up fails,
where `main` returns, in the signal handler, and by a signal that has no handler.

Only the signal handler removes the record of the host. `main` does not, nor does `run` where the port cannot be
bound, although both come after the insert: `exits_clean_iff` says that these two and a signal without a handler
are the only ends that leave a record behind.
-/

namespace PullStream

open Transition ServerBiz

/-- `inserted` is a trace variable: the instance has inserted the record of its host. -/
structure Life where
  pull : Pull
  coll : List HostDoc
  file : Nat
  inserted : Bool

/-- What happens next: the instance takes its next step, it gets `SIGTERM` or `SIGINT`, it is ended by a signal
that it has no handler for, or other processes change the collection and the pid file. -/
inductive LifeLabel where
  | step (ok locked : Bool)
  | signal
  | crash
  | others (coll : List HostDoc) (file : Nat)

def Life.start (cfg : Config) (coll : List HostDoc) (file : Nat) : Life := ⟨Pull.start cfg, coll, file, false⟩

def lifeStep (cfg : Config) (l : LifeLabel) (s : Life) : Option Life :=
  match l with
  | .step ok locked =>
    (s.pull.step cfg ok ⟨s.coll, s.file, [], .exited, none⟩ fun _ => locked).map fun x =>
      ⟨x.1, x.2.1, x.2.2, s.inserted || x.1.record⟩
  | .signal => s.pull.signal.map fun pull => { s with pull }
  | .crash => if s.pull.hasExited then none else some { s with pull := s.pull.exit }
  | .others coll file =>
    if hostRecs (cStr cfg.host) coll = hostRecs (cStr cfg.host) s.coll then some { s with coll, file } else none

/-- Once the instance is gone, the record it has inserted is gone too. -/
def Life.Clean (cfg : Config) (s : Life) : Prop :=
  s.pull.hasExited = true → s.inserted = true → cStr cfg.host ∉ s.coll.map (·.host)

/-- The step is no end that leaves the record behind: `evhttp_start` does not fail, `main` does not return, and
the instance has no record when it gets a signal without a handler. -/
def Life.endsClean (s : Life) : LifeLabel → Bool
  | .step ok _ =>
    match s.pull.point with
    | .evhttpStart => ok
    | .unlink => false
    | _ => true
  | .crash => !s.pull.record
  | _ => true

/-! ### The invariant -/

/-- The record of the host, from where it is found absent to where it has been removed. -/
structure Life.Inv (cfg : Config) (s : Life) : Prop where
  stage : s.pull.Stage cfg
  absent : s.pull.point = .register (registerAbsent cfg.host cfg.port) → hostRecs (cStr cfg.host) s.coll = []
  insert : s.pull.point = .register (registerInsert cfg.host cfg.port) →
    hostRecs (cStr cfg.host) s.coll = [] ∧ s.pull.host = cfg.host
  held : s.pull.record = true → s.inserted = true ∧ s.pull.host = cfg.host ∧
    ∃ d, hostRecs (cStr cfg.host) s.coll = [d]
  gone : s.pull.hasExited = false → s.pull.record = false → s.inserted = true →
    hostRecs (cStr cfg.host) s.coll = []

section

variable {cfg : Config} {s u : Life} {l : LifeLabel} {coll : List HostDoc} {file : Nat} {ls : List LifeLabel}

theorem notMem_hosts_iff {host : Str} : host ∉ coll.map (·.host) ↔ hostRecs host coll = [] := by
  rw [hostRecs, Keyed.slot, List.filter_eq_nil_iff]
  simp

theorem Life.inv_start (cfg : Config) (coll : List HostDoc) (file : Nat) : (Life.start cfg coll file).Inv cfg := by
  refine ⟨Pull.stage_start cfg, ?_, ?_, ?_, ?_⟩
  all_goals
    unfold Life.start Pull.start
    intro h
  · split_ifs at h
  · split_ifs at h
  · cases h
  · exact nofun

theorem Life.Inv.exit (h : s.Inv cfg) (hpoint : s.pull.hasExited = false) (file : Nat) {inserted : Bool}
    (hinserted : inserted = s.inserted) :
    Life.Inv cfg ⟨s.pull.exit, s.coll, file, inserted⟩ ∧
      (Life.Clean cfg ⟨s.pull.exit, s.coll, file, inserted⟩ ↔ s.pull.record = false) := by
  subst hinserted
  refine ⟨⟨Pull.stage_exit cfg _, nofun, nofun, nofun, nofun⟩, ?_⟩
  simp only [Life.Clean, notMem_hosts_iff]
  cases hrec : s.pull.record with
  | false => exact iff_of_true (fun _ hins => h.gone hpoint hrec hins) rfl
  | true =>
    obtain ⟨hins, -, d, hd⟩ := h.held hrec
    refine iff_of_false (fun hclean => ?_) nofun
    exact List.cons_ne_nil d [] (hd.symm.trans (hclean rfl hins))

theorem Life.Inv.exit_iff (h : s.Inv cfg) (hpoint : s.pull.hasExited = false) (file : Nat) {c : Bool}
    (hrec : s.pull.record = !c) :
    Life.Inv cfg ⟨s.pull.exit, s.coll, file, s.inserted || false⟩ ∧
      (Life.Clean cfg ⟨s.pull.exit, s.coll, file, s.inserted || false⟩ ↔ c = true) := by
  refine (h.exit hpoint file (Bool.or_false _)).imp_right fun hclean => hclean.trans ?_
  rw [hrec, Bool.not_eq_false']

theorem Life.clean_of_going (hu : u.pull.hasExited = false) : u.Clean cfg :=
  fun hexited => absurd (hu.symm.trans hexited) nofun

theorem Life.Inv.going (h : u.Inv cfg) (hu : u.pull.hasExited = false) : u.Inv cfg ∧ (u.Clean cfg ↔ true = true) :=
  ⟨h, iff_of_true (Life.clean_of_going hu) rfl⟩

theorem Life.Inv.goto (h : s.Inv cfg) (hpoint : s.pull.hasExited = false) {point : PullPoint} (lock : Option Nat)
    (hstage : { s.pull.goto point with lock }.Stage cfg)
    (habsent : point = .register (registerAbsent cfg.host cfg.port) → hostRecs (cStr cfg.host) s.coll = [])
    (hinsert : point ≠ .register (registerInsert cfg.host cfg.port)) :
    Life.Inv cfg ⟨{ s.pull.goto point with lock }, s.coll, s.file, s.inserted || s.pull.record⟩ := by
  refine ⟨hstage, habsent, fun hp => absurd hp hinsert, fun hrec => ?_, fun _ hrec hins => ?_⟩
  · obtain ⟨-, hheld⟩ := h.held hrec
    exact ⟨(congrArg (s.inserted || ·) hrec).trans (Bool.or_true _), hheld⟩
  · have hrec' : s.pull.record = false := hrec
    rw [hrec', Bool.or_false] at hins
    exact h.gone hpoint hrec' hins

theorem hostRegister_ne_absent : hostRegister cfg.host cfg.port ≠ registerAbsent cfg.host cfg.port := by
  rw [hostRegister_eq, registerAbsent_eq]
  exact nofun

theorem hostRegister_ne_insert : hostRegister cfg.host cfg.port ≠ registerInsert cfg.host cfg.port := by
  rw [hostRegister_eq]
  exact nofun

theorem registerAbsent_ne_insert : registerAbsent cfg.host cfg.port ≠ registerInsert cfg.host cfg.port := by
  rw [registerAbsent_eq]
  exact nofun

theorem registerAbsent_ne_ret {b : Bool} : .ret b ≠ registerAbsent cfg.host cfg.port := by
  rw [registerAbsent_eq]
  exact nofun

theorem Life.Inv.recs_removed (h : s.Inv cfg) (hpoint : s.pull.hasExited = false) (hins : s.inserted = true) :
    hostRecs (cStr cfg.host) (s.coll.eraseP fun d => d.host = cStr s.pull.host) = [] := by
  unfold hostRecs
  cases hrec : s.pull.record with
  | true =>
    obtain ⟨-, hhost, d, hd⟩ := h.held hrec
    rw [hhost, Keyed.slot_eraseP_self, ← hostRecs, hd]
    rfl
  | false =>
    have hgone := h.gone hpoint hrec hins
    by_cases hhost : cStr cfg.host = cStr s.pull.host
    · rw [hhost, Keyed.slot_eraseP_self, ← hostRecs, ← hhost, hgone]
      rfl
    · rw [Keyed.slot_eraseP_ne HostDoc.host hhost]
      exact hgone

theorem Life.Inv.register_step (h : s.Inv cfg) {ok locked : Bool} {prog : HostAct Bool}
    (hpoint : s.pull.point = .register prog) (hstep : lifeStep cfg (.step ok locked) s = some u) :
    u.Inv cfg ∧ (u.Clean cfg ↔ s.endsClean (.step ok locked) = true) := by
  obtain ⟨x, hx, rfl⟩ := Option.map_eq_some_iff.mp hstep
  obtain ⟨⟨point, host, lock, record⟩, coll, file, inserted⟩ := s
  obtain rfl : point = .register prog := hpoint
  have hstage := h.stage
  obtain ⟨rfl | rfl | rfl, hrec⟩ | ⟨registered, rfl, hrec⟩ := hstage
  · rw [hostRegister_eq] at hx
    cases hx
    refine Life.Inv.going ?_ rfl
    cases hfound : (answerHost true (.findOne (cStr cfg.host)) coll).1 with
    | none =>
      refine h.goto rfl lock (.inl ⟨.inr (.inl rfl), hrec⟩) (fun _ => ?_) fun hp => ?_
      · exact List.filter_eq_nil_iff.mpr (List.find?_eq_none.mp hfound)
      · exact registerAbsent_ne_insert (PullPoint.register.inj hp)
    | some d =>
      refine h.goto rfl lock (.inr ⟨false, rfl, hrec⟩) (fun hp => ?_) nofun
      exact absurd (PullPoint.register.inj hp) registerAbsent_ne_ret
  · have habsent := h.absent rfl
    rw [registerAbsent_eq] at hx
    cases hx
    refine Life.Inv.going ⟨.inl ⟨.inr (.inr rfl), hrec⟩, fun _ => habsent, fun _ => ⟨habsent, rfl⟩, fun hr => ?_,
      fun _ _ _ => habsent⟩ rfl
    exact absurd (hrec.symm.trans hr) nofun
  · obtain ⟨habsent, hhost⟩ := h.insert rfl
    cases hx
    refine Life.Inv.going ⟨.inr ⟨true, rfl, rfl⟩, fun hp => ?_, nofun, fun _ => ⟨Bool.or_true _, hhost,
      ⟨cStr cfg.host, cfg.port⟩, ?_⟩, fun _ => nofun⟩ rfl
    · exact absurd (PullPoint.register.inj hp) registerAbsent_ne_ret
    · refine (Keyed.slot_insert HostDoc.host _ coll _).trans ((if_pos rfl).trans ?_)
      exact congrArg (fun recs => recs ++ [_]) habsent
  · cases hx
    cases registered
    · exact h.exit_iff rfl file hrec
    · exact Life.Inv.going (h.goto rfl lock hrec nofun nofun) rfl

theorem Life.Inv.own_step (h : s.Inv cfg) {ok locked : Bool} (hstep : lifeStep cfg (.step ok locked) s = some u) :
    u.Inv cfg ∧ (u.Clean cfg ↔ s.endsClean (.step ok locked) = true) := by
  obtain ⟨x, hx, rfl⟩ := Option.map_eq_some_iff.mp hstep
  obtain ⟨⟨point, host, lock, record⟩, coll, file, inserted⟩ := s
  have hstage := h.stage
  cases point with
  | openPid =>
    cases hx
    cases ok
    · exact h.exit_iff rfl file hstage
    · exact Life.Inv.going (h.goto rfl lock hstage nofun nofun) rfl
  | lockPid fd =>
    cases hx
    cases locked
    · exact Life.Inv.going (h.goto rfl (some fd) hstage nofun nofun) rfl
    · exact h.exit_iff rfl file hstage
  | init =>
    cases hx
    cases ok
    · exact h.exit_iff rfl file hstage
    · refine Life.Inv.going (h.goto rfl lock (.inl ⟨.inl rfl, hstage⟩) (fun hp => ?_) fun hp => ?_) rfl
      · exact absurd (PullPoint.register.inj hp) hostRegister_ne_absent
      · exact hostRegister_ne_insert (PullPoint.register.inj hp)
  | register prog => exact h.register_step rfl hstep
  | evhttpStart =>
    cases hx
    cases ok
    · exact h.exit_iff rfl file hstage
    · exact Life.Inv.going (h.goto rfl lock hstage nofun nofun) rfl
  | dispatch =>
    cases hx
    exact Life.Inv.going (h.goto rfl lock hstage nofun nofun) rfl
  | unlink =>
    cases hx
    exact h.exit_iff rfl (file + 1) hstage
  | terminal prog =>
    obtain hprog | ⟨ret, rfl, hrec⟩ := hstage
    · obtain rfl : prog = removeHost host := hprog
      rw [removeHost_eq] at hx
      cases hx
      refine Life.Inv.going ⟨.inr ⟨_, rfl, rfl⟩, nofun, nofun, nofun, fun _ _ hins => ?_⟩ rfl
      exact h.recs_removed rfl ((Bool.or_false _).symm.trans hins)
    · cases hx
      exact h.exit_iff rfl file hrec
  | exited => cases hx

theorem Life.Inv.signalled (h : s.Inv cfg) {pull : Pull} (hpull : s.pull.signal = some pull) :
    Life.Inv cfg { s with pull } ∧ Life.Clean cfg { s with pull } := by
  obtain ⟨⟨point, host, lock, record⟩, coll, file, inserted⟩ := s
  have hstage := h.stage
  cases point with
  | openPid | lockPid | init =>
    cases hpull
    exact (h.exit rfl file rfl).imp_right fun hclean => hclean.mpr hstage
  | exited => cases hpull
  | register | evhttpStart | dispatch | unlink | terminal =>
    cases hpull
    exact ⟨⟨.inl rfl, nofun, nofun, h.held, h.gone⟩, Life.clean_of_going rfl⟩

/-- **What a step of a life does**: it keeps the invariant, and leaves no record behind exactly if it ends
clean. -/
theorem Life.Inv.step (h : s.Inv cfg) (hstep : lifeStep cfg l s = some u) :
    u.Inv cfg ∧ (s.Clean cfg → (u.Clean cfg ↔ s.endsClean l = true)) := by
  cases l with
  | step ok locked => exact (h.own_step hstep).imp_right fun hc _ => hc
  | signal =>
    obtain ⟨pull, hpull, rfl⟩ := Option.map_eq_some_iff.mp hstep
    exact (h.signalled hpull).imp_right fun hc _ => iff_of_true hc rfl
  | crash =>
    rw [lifeStep] at hstep
    split_ifs at hstep with hexited
    cases hstep
    refine (h.exit (Bool.eq_false_iff.mpr hexited) s.file rfl).imp_right fun hclean _ => hclean.trans ?_
    simp [Life.endsClean]
  | others coll file =>
    rw [lifeStep] at hstep
    split_ifs at hstep with hrecs
    cases hstep
    refine ⟨⟨h.stage, ?_, ?_, ?_, ?_⟩, fun hclean => iff_of_true ?_ rfl⟩
    · exact fun hp => hrecs.trans (h.absent hp)
    · exact fun hp => (h.insert hp).imp_left hrecs.trans
    · exact fun hrec => (h.held hrec).imp_right fun ⟨hhost, d, hd⟩ => ⟨hhost, d, hrecs.trans hd⟩
    · exact fun hpoint hrec hins => hrecs.trans (h.gone hpoint hrec hins)
    · intro hexited hins
      exact notMem_hosts_iff.mpr (hrecs.trans (notMem_hosts_iff.mp (hclean hexited hins)))

/-- **No end leaves a record behind, in any state of a run, exactly if all of its steps end clean.** -/
theorem exits_clean_iff :
    (Runs (lifeStep cfg) (fun t _ => t.Clean cfg) (Life.start cfg coll file) ls u ∧ u.Clean cfg) ↔
      Runs (lifeStep cfg) (fun t l => t.endsClean l = true) (Life.start cfg coll file) ls u := by
  have hstart := Life.inv_start cfg coll file
  have hclean : (Life.start cfg coll file).Clean cfg := fun _ => nofun
  have halways := @Runs.always_iff _ _ (lifeStep cfg) (fun _ _ => True) _ u ls (Life.Inv cfg) (Life.Clean cfg) _
    hstart hclean (fun t l u ht _ hstep => (ht.step hstep).1) fun t l u ht hc _ hstep => (ht.step hstep).2 hc
  simpa only [true_and] using halways

end

/-! ### An instance that cannot bind its port -/

/-- The instance registers its host, and then the port is in use. -/
def portInUse : List LifeLabel := .replicate 5 (.step true false) ++ [.step false false]

theorem record_left_behind :
    ¬ ∀ (cfg : Config) (coll : List HostDoc) (file : Nat) (ls : List LifeLabel) (u : Life),
      Runs (lifeStep cfg) (fun _ _ => True) (Life.start cfg coll file) ls u → u.Clean cfg := by
  intro h
  have hclean := h (watchConfig false) [] 0 portInUse _ (runs_get (by decide))
  exact absurd (hclean rfl rfl) (by decide)

end PullStream
