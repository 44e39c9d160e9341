import PullStream.Control.Sessions
import PullStream.Control.Simulation
import PullStream.Control.Progress
/-!
# The service on the driver is the service

The threads of `DriverSys` talk to the driver operation by operation, and others move in between. While every query is
answered in one batch, each of them is in step with a thread of the service whose calls are made at once
(`Level.InStep`). So the pairs of such threads make up a state that goes with a state of either system (`StandsOver`),
and a step of the one is a step of the other or, where a thread is busy with its own objects, none. So a run with the
driver is a run of the service, with the same records, processes, queues, and results (`driver_refines`), and what is
shown of all runs of the service is true of it.

In any run at all, however the queries are answered, no thread uses an object that has been destroyed, and one that has
returned has closed its connection (`sessions_close`).
-/

namespace PullStream

open Transition Level Prog

section

variable {T : Type} {env : Env} {addr : Str}

/-! ### Threads that stand over those on the driver -/

/-- Threads that do what those on the driver do, over which they stand. -/
def overThreads (env : Env) (low : T → DriverThread) (start : Act Int → T) : Threads T where
  view x :=
    match (low x).prog with
    | .ret rtn => .ret rtn
    | .call (.inr .assertFail) _ => .call .assertFail nofun
    | .call _ _ => .call (.execl []) fun _ => x
  dispatch ev := start (ServerBiz.dispatch env ev)
  detect := start (ServerBiz.processAliveDetect env)
  shown := env.shown

variable {low : T → DriverThread} {start : Act Int → T}

theorem overThreads_hom (hstart : ∀ p, low (start p) = ⟨p.subst (Driver.carryOut addr), []⟩) :
    (overThreads env low start).Hom (driverThreads env addr) low where
  view x := by
    simp only [overThreads, driverThreads]
    rcases hx : low x with ⟨_ | ⟨op | op, k⟩, m⟩
    · rfl
    · exact congrArg (View.call (Call.execl [])) (funext fun _ => hx.symm)
    · cases op with
      | assertFail => exact congrArg (View.call Call.assertFail) (funext fun e => Empty.elim e)
      | _ => exact congrArg (View.call (Call.execl [])) (funext fun _ => hx.symm)
  dispatch ev := hstart _
  detect := hstart _
  shown := rfl

theorem ret_of_view {x : T} {rtn : Int} (h : (overThreads env low start).view x = .ret rtn) :
    (low x).prog = .ret rtn := by
  simp only [overThreads] at h
  split at h
  · rename_i heq
    cases h
    exact heq
  · cases h
  · cases h

theorem step_setColl {I : Threads T} {l : Label} (hl : ∀ τ ch, l ≠ .call τ ch) (s : Sys T)
    (coll : List Doc) : step I l { s with coll } = (step I l s).map fun u => { u with coll } := by
  cases l with
  | call τ ch => exact absurd rfl (hl τ ch)
  | die p | appear p =>
    simp only [step]
    split_ifs <;> rfl
  | put ev =>
    simp only [step, stepRunning, putData]
    split_ifs
    · rfl
    · split <;> rfl
    · rfl
  | front i =>
    simp only [step, stepRunning]
    split_ifs
    · rfl
    · split <;> rfl
  | abort i =>
    have hjob : Sys.job { s with coll } i = s.job i := rfl
    simp only [step, stepRunning, hjob]
    split_ifs
    · rfl
    · split
      · split <;> rfl
      · rfl
  | pop i =>
    simp only [step, stepRunning]
    split_ifs
    · rfl
    · split
      · split <;> rfl
      · rfl
  | detect =>
    simp only [step, stepRunning]
    split_ifs
    · rfl
    · split <;> rfl
  | detectEnd =>
    simp only [step, stepRunning]
    split_ifs
    · rfl
    · split
      · rfl
      · split <;> rfl

theorem coll_step {I : Threads T} {l : Label} (hl : ∀ τ ch, l ≠ .call τ ch) {s u : Sys T}
    (h : step I l s = some u) : u.coll = s.coll := by
  have hself : some u = some { u with coll := s.coll } :=
    h.symm.trans ((step_setColl hl s s.coll).trans (congrArg (Option.map _) h))
  rw [Option.some.inj hself]

theorem step_of_detect {I : Threads T} {s : Sys T} (hrun : s.aborted = false) (hs : s.sched = none) :
    step I .detect s = some { s with sched := some I.detect } := by
  have hstep : step I .detect s = stepRunning I .detect s := if_neg (by simp [hrun])
  rw [hstep, stepRunning, hs]

theorem step_of_detectEnd {I : Threads T} {s : Sys T} {t : T} {rtn : Int} (hrun : s.aborted = false)
    (hs : s.sched = some t) (hv : I.view t = .ret rtn) : step I .detectEnd s = some { s with sched := none } := by
  have hstep : step I .detectEnd s = stepRunning I .detectEnd s := if_neg (by simp [hrun])
  simp only [hstep, stepRunning, hs, hv]

theorem setThread_self {T : Type} {s : Sys T} {τ : Tid} {t : T} (h : s.thread τ = some t) : s.setThread τ t = s := by
  cases τ with
  | worker i =>
    obtain ⟨⟨ev, t⟩, hj, rfl⟩ := Option.map_eq_some_iff.mp h
    have hlist : s.workerList.modify i (fun w => { w with job := w.job.map fun j => (j.1, t) }) = s.workerList := by
      refine List.ext_getElem? fun j => ?_
      rw [List.getElem?_modify]
      by_cases hij : i = j
      · subst hij
        rw [Sys.getElem?_of_job hj]
        simp
      · simp [hij]
    show { s with workerList := _ } = s
    rw [hlist]
  | sched =>
    have hs : s.sched = some t := h
    show { s with sched := some t } = s
    rw [← hs]

theorem toHost_setThread {T : Type} {s s' : Sys T} {τ : Tid} {t : T} (h : s.toHost = s'.toHost) :
    (s.setThread τ t).toHost = (s'.setThread τ t).toHost := by
  obtain ⟨f, coll⟩ := s
  obtain ⟨f', coll'⟩ := s'
  obtain rfl : f = f' := h
  cases τ <;> rfl

/-- The threads of `p` stand over those of `u`, and the records of `p` are the documents of `u`. -/
structure StandsOver (low : T → DriverThread) (u : DriverSys) (p : Sys T) : Prop where
  host : u.toHost = (p.map low).toHost
  docs : u.docs Driver.database Driver.collectionProcess = p.coll.map Doc.bson

namespace StandsOver

variable {u u' : DriverSys} {p : Sys T} {τ : Tid}

theorem aborted (h : StandsOver low u p) : u.aborted = p.aborted := congrArg Host.aborted h.host

theorem os (h : StandsOver low u p) : u.os = p.os := congrArg Host.os h.host

theorem frame (h : StandsOver low u p) : u.frame = ({ p with coll := [] } : Sys T).map low :=
  congrArg (fun f => Sys.mk f []) h.host

theorem thread (h : StandsOver low u p) {t : DriverThread} (ht : u.frame.thread τ = some t) :
    ∃ x, low x = t ∧ p.thread τ = some x := by
  rw [h.frame, Sys.map_thread] at ht
  obtain ⟨x, hx, hlow⟩ := Option.map_eq_some_iff.mp ht
  exact ⟨x, hlow, by cases τ <;> exact hx⟩

theorem boot {W : Int} {coll : List Doc} {docs : String → String → List Bson} {os : Os}
    (hdocs : docs Driver.database Driver.collectionProcess = coll.map Doc.bson) :
    StandsOver low (.boot W docs os) (.boot W coll os) where
  host := by
    rw [Sys.map_boot]
    rfl
  docs := hdocs

/-- **An operation of a thread on its own objects.** -/
theorem own (h : StandsOver low u p) (hstep : driverStep env addr (.own τ) u = some u') :
    ∃ x op k m y, p.thread τ = some x ∧ low x = ⟨.call (.inl op) k, m⟩ ∧ driverOwn env.shown op m = some y ∧
      ∀ x', low x' = ⟨k y.1, y.2⟩ → StandsOver low u' (p.setThread τ x') := by
  simp only [driverStep] at hstep
  split_ifs at hstep
  split at hstep
  · rename_i op k m ht
    obtain ⟨y, hy, rfl⟩ := Option.map_eq_some_iff.mp hstep
    obtain ⟨x, hx, hp⟩ := h.thread ht
    refine ⟨x, op, k, m, y, hp, hx, hy, fun x' hx' => ⟨?_, ?_⟩⟩
    · rw [← Sys.map_setThread, hx']
      exact toHost_setThread h.host
    · have hcoll : (p.setThread τ x').coll = p.coll := by cases τ <;> rfl
      rw [hcoll]
      exact h.docs
  · cases hstep

/-- **A shared operation of a thread.** -/
theorem share (h : StandsOver low u p) (addr : Str) {x : Choice ⊕ Batch} (hstep : u.share env τ x = some u') :
    ∃ t op k m y, p.thread τ = some t ∧ low t = ⟨.call (.inr op) k, m⟩ ∧
      serverAnswer env.shown op x m ⟨u.docs, u.os⟩ = some y ∧ ∀ t' st, low t' = ⟨k y.1, y.2.1⟩ →
        (driverLevel env.shown addr).rep y.2.2 st → StandsOver low u' ((p.setThread τ t').setStore st) := by
  unfold DriverSys.share at hstep
  split at hstep
  · rename_i op k m ht
    obtain ⟨y, hy, rfl⟩ := Option.map_eq_some_iff.mp hstep
    obtain ⟨t, hlow, hp⟩ := h.thread ht
    refine ⟨t, op, k, m, y, hp, hlow, hy, fun t' st ht' hrep => ⟨?_, hrep.1⟩⟩
    show { (u.frame.setThread τ ⟨k y.1, y.2.1⟩).toHost with os := y.2.2.os } = _
    rw [toHost_setThread (show u.frame.toHost = (p.map low).toHost from h.host), ← ht', Sys.map_setThread, hrep.2]
    rfl
  · cases hstep

/-- **What is not an operation.** -/
theorem label (h : StandsOver low u p) (hstart : ∀ p, low (start p) = ⟨p.subst (Driver.carryOut addr), []⟩) {l : Label}
    (hl : ∀ τ ch, l ≠ .call τ ch) (hstep : driverStep env addr (.label l) u = some u') :
    ∃ p', step (overThreads env low start) l p = some p' ∧ StandsOver low u' p' := by
  have hframe : (step (driverThreads env addr) l u.frame).map u.setFrame = some u' := by
    cases l with
    | call τ ch => exact absurd rfl (hl τ ch)
    | _ => exact hstep
  obtain ⟨f, hf, rfl⟩ := Option.map_eq_some_iff.mp hframe
  rw [h.frame, step_map (overThreads_hom hstart), step_setColl hl, Option.map_map] at hf
  obtain ⟨p', hp', rfl⟩ := Option.map_eq_some_iff.mp hf
  refine ⟨p', hp', rfl, ?_⟩
  rw [coll_step hl hp']
  exact h.docs

end StandsOver

end

/-! ### Threads in step -/

/-- A thread on the driver, and the thread of the service that it is in step with. -/
abbrev ThreadPair (shown : String → Str → Str) (addr : Str) : Type :=
  { x : DriverThread × Act Int // (driverLevel shown addr).InStep x.1.prog x.1.mem (some x.2) }

namespace ThreadPair

variable {shown : String → Str → Str} {addr : Str}

def low (x : ThreadPair shown addr) : DriverThread := x.1.1

def high (x : ThreadPair shown addr) : Act Int := x.1.2

/-- A thread of the service that has its own memory. -/
def start (shown : String → Str → Str) (addr : Str) (p : Act Int) : ThreadPair shown addr :=
  ⟨(⟨p.subst (Driver.carryOut addr), []⟩, p), inStep_subst p fun _ _ h => nomatch h⟩

theorem low_start (p : Act Int) : (start shown addr p).low = ⟨p.subst (Driver.carryOut addr), []⟩ := rfl

theorem ret {x : ThreadPair shown addr} {rtn : Int} (h : x.low.prog = .ret rtn) : x.high = .ret rtn := by
  obtain ⟨⟨⟨prog, mem⟩, p⟩, hx⟩ := x
  obtain rfl : prog = .ret rtn := h
  exact (hx.ret (driverLevel_sound shown addr)).2 p rfl

end ThreadPair

section

variable {env : Env} {addr : Str}

def pairThreads (env : Env) (addr : Str) : Threads (ThreadPair env.shown addr) :=
  overThreads env ThreadPair.low (ThreadPair.start env.shown addr)

theorem view_high {x : ThreadPair env.shown addr} {rtn : Int} (h : (pairThreads env addr).view x = .ret rtn) :
    (service env).view x.high = .ret rtn := by
  rw [ThreadPair.ret (ret_of_view h)]
  rfl

theorem assertFail_of_view {x : ThreadPair env.shown addr}
    (h : ((pairThreads env addr).view x).call? = some .assertFail) :
    ((service env).view x.high).call? = some .assertFail := by
  obtain ⟨⟨⟨prog, mem⟩, p⟩, hx⟩ := x
  simp only [pairThreads, overThreads, ThreadPair.low] at h
  split at h
  · cases h
  · obtain ⟨c, k', rfl, hends, -⟩ := hx.shared (driverLevel_sound env.shown addr)
    exact congrArg some (hends rfl)
  · cases h

theorem step_high {l : Label} (hl : ∀ τ ch, l ≠ .call τ ch) {p p' : Sys (ThreadPair env.shown addr)}
    (h : step (pairThreads env addr) l p = some p') :
    step (service env) l (p.map ThreadPair.high) = some (p'.map ThreadPair.high) := by
  cases l with
  | put ev =>
    obtain ⟨hrun, hput⟩ := step_running h (by simp) (by simp)
    show (if p.aborted then none else putData ev (p.map ThreadPair.high)) = _
    rw [hrun, if_neg Bool.false_ne_true, putData_map, show putData ev p = some p' from hput]
    rfl
  | front i =>
    have hrun : (p.map ThreadPair.high).aborted = false := (step_running h (by simp) (by simp)).1
    obtain ⟨ev, q, hw, rfl⟩ := step_front h
    have hw' := getElem?_map_workerList ThreadPair.high p i
    rw [hw] at hw'
    rw [step_of_front hrun hw', ← Sys.map_setWorker]
    rfl
  | call τ ch => exact absurd rfl (hl τ ch)
  | pop i =>
    have hrun : (p.map ThreadPair.high).aborted = false := (step_running h (by simp) (by simp)).1
    obtain ⟨ev₀, q, ev, x, rtn, hw, hv, rfl⟩ := step_pop h
    have hw' := getElem?_map_workerList ThreadPair.high p i
    rw [hw] at hw'
    rw [step_of_pop hrun hw' (view_high hv)]
    exact congrArg (fun u : Sys (Act Int) => some { u with finished := p.finished ++ [Done.mk i ev rtn] })
      (Sys.map_setWorker ThreadPair.high p i ⟨q, none⟩)
  | abort i =>
    have hrun : (p.map ThreadPair.high).aborted = false := (step_running h (by simp) (by simp)).1
    obtain ⟨⟨ev, x, hj, hc⟩, rfl⟩ := step_abort h
    have hj' := Sys.map_job ThreadPair.high p i
    rw [hj] at hj'
    simp only [step, hrun, stepRunning, hj', Option.map_some, assertFail_of_view hc]
    rfl
  | detect =>
    have hrun : (p.map ThreadPair.high).aborted = false := (step_running h (by simp) (by simp)).1
    obtain ⟨hs, rfl⟩ := step_detect h
    have hs' : (p.map ThreadPair.high).sched = none := by rw [Sys.map_sched, hs]; rfl
    exact step_of_detect hrun hs'
  | detectEnd =>
    have hrun : (p.map ThreadPair.high).aborted = false := (step_running h (by simp) (by simp)).1
    obtain ⟨⟨x, rtn, hs, hv⟩, rfl⟩ := step_detectEnd h
    have hs' : (p.map ThreadPair.high).sched = some x.high := by rw [Sys.map_sched, hs]; rfl
    exact step_of_detectEnd hrun hs' (view_high hv)
  | die q =>
    obtain ⟨hq, rfl⟩ := step_die h
    exact if_pos hq
  | appear q =>
    obtain ⟨hq, rfl⟩ := step_appear h
    exact if_neg (by simp [hq])

namespace StandsOver

variable {u u' : DriverSys} {p : Sys (ThreadPair env.shown addr)}

/-- **An operation on objects of a thread** changes nothing for the service. -/
theorem own_high (h : StandsOver ThreadPair.low u p) {τ : Tid} (hstep : driverStep env addr (.own τ) u = some u') :
    ∃ p' : Sys (ThreadPair env.shown addr), StandsOver ThreadPair.low u' p' ∧
      p'.map ThreadPair.high = p.map ThreadPair.high := by
  obtain ⟨⟨⟨_, q⟩, hx⟩, op, k, m, y, hp, rfl, hy, hnew⟩ := h.own hstep
  obtain ⟨y', hy', hnext⟩ := hx.own (driverLevel_sound env.shown addr)
  cases hy.symm.trans hy'
  refine ⟨_, hnew ⟨(⟨k y.1, y.2⟩, q), hnext⟩ rfl, ?_⟩
  rw [← Sys.map_setThread]
  refine setThread_self ?_
  rw [Sys.map_thread, hp]
  rfl

/-- **A shared operation** is a call of the service. -/
theorem call_high (h : StandsOver ThreadPair.low u p) {τ : Tid} {ch : Choice}
    (hstep : driverStep env addr (.label (.call τ ch)) u = some u') :
    ∃ p' : Sys (ThreadPair env.shown addr), StandsOver ThreadPair.low u' p' ∧
      step (service env) (.call τ ch) (p.map ThreadPair.high) = some (p'.map ThreadPair.high) := by
  simp only [driverStep] at hstep
  split_ifs at hstep with hab
  obtain ⟨⟨⟨_, q⟩, hx⟩, op, k, m, y, hp, rfl, hy, hnew⟩ := h.share addr hstep
  obtain ⟨c, k', rfl, -, hans⟩ := hx.shared (driverLevel_sound env.shown addr)
  obtain ⟨a, st, ha, hrep, hnext⟩ := hans (.inl ch) ⟨u.docs, u.os⟩ p.store y rfl ⟨h.docs, h.os⟩ hy
  have hrun : (p.map ThreadPair.high).aborted = false := by
    show p.aborted = false
    rw [← h.aborted]
    exact Bool.eq_false_iff.mpr hab
  have hthread : (p.map ThreadPair.high).thread τ = some (.call c k') := by
    rw [Sys.map_thread, hp]
    rfl
  refine ⟨_, hnew ⟨(⟨k y.1, y.2.1⟩, k' a), hnext⟩ st rfl hrep, ?_⟩
  have hanswer : answer (service env).shown c ch (p.map ThreadPair.high).store = some (a, st) := ha
  rw [step_of_call hrun hthread rfl hanswer]
  show some (((p.map ThreadPair.high).setThread τ (k' a)).setStore st) = some (((p.setThread τ _).map _).setStore st)
  rw [← Sys.map_setThread]
  rfl

/-- **One step** of the system with the driver is a step of the service, or none. -/
theorem run_step (h : StandsOver ThreadPair.low u p) {s₀ : Sys (Act Int)} {ls : List Label}
    (hrun : Runs (step (service env)) (fun _ _ => True) s₀ ls (p.map ThreadPair.high)) {l : DriverLabel}
    (hl : l.oneBatch = true) (hstep : driverStep env addr l u = some u') :
    ∃ p' : Sys (ThreadPair env.shown addr), StandsOver ThreadPair.low u' p' ∧
      Runs (step (service env)) (fun _ _ => True) s₀ (ls ++ l.label?.toList) (p'.map ThreadPair.high) := by
  cases l with
  | own τ =>
    obtain ⟨p', h', hhigh⟩ := h.own_high hstep
    refine ⟨p', h', ?_⟩
    rw [hhigh]
    exact (List.append_nil ls).symm ▸ hrun
  | label l =>
    by_cases hcall : ∃ τ ch, l = .call τ ch
    · obtain ⟨τ, ch, rfl⟩ := hcall
      obtain ⟨p', h', hs⟩ := h.call_high hstep
      exact ⟨p', h', hrun.snoc trivial hs⟩
    · have hnot : ∀ τ ch, l ≠ .call τ ch := fun τ ch hl => hcall ⟨τ, ch, hl⟩
      obtain ⟨p', hp', h'⟩ := h.label ThreadPair.low_start hnot hstep
      exact ⟨p', h', hrun.snoc trivial (step_high hnot hp')⟩
  | batch τ b => cases hl

end StandsOver

/-- **A run with the driver** is a run of the service. -/
theorem standsOver_of_runs {W : Int} {coll : List Doc} {docs : String → String → List Bson} {os : Os}
    (hdocs : docs Driver.database Driver.collectionProcess = coll.map Doc.bson) {ls : List DriverLabel}
    {u : DriverSys} (h : Runs (driverStep env addr) (fun _ l => l.oneBatch = true) (.boot W docs os) ls u) :
    ∃ p : Sys (ThreadPair env.shown addr), StandsOver ThreadPair.low u p ∧
      Runs (step (service env)) (fun _ _ => True) (.boot W coll os) (ls.filterMap DriverLabel.label?)
        (p.map ThreadPair.high) := by
  induction h with
  | nil => exact ⟨_, .boot hdocs, Sys.map_boot ThreadPair.high W coll os ▸ .nil⟩
  | snoc _ hl hstep ih =>
    rename_i ls t u l _
    obtain ⟨p, htog, hrun⟩ := ih
    obtain ⟨p', htog', hrun'⟩ := htog.run_step hrun hl hstep
    refine ⟨p', htog', ?_⟩
    rw [List.filterMap_append]
    cases hlabel : l.label? <;> simpa [hlabel] using hrun'

/-- **The service on the driver refines the service**, where each query is answered in one batch. Every such run of it
is a run of the service in which the operations that reach the server are the calls, from the records that the
documents stand for. Then the records are what the documents have become, the processes, the queues, what the workers
are busy with and have finished are the same, and so is whether the service has aborted. -/
theorem driver_refines {W : Int} {coll : List Doc} {docs : String → String → List Bson} {os : Os}
    (hdocs : docs Driver.database Driver.collectionProcess = coll.map Doc.bson) {ls : List DriverLabel}
    {u : DriverSys} (h : Runs (driverStep env addr) (fun _ l => l.oneBatch = true) (.boot W docs os) ls u) :
    ∃ s, Runs (step (service env)) (fun _ _ => True) (.boot W coll os) (ls.filterMap DriverLabel.label?) s ∧
      u.docs Driver.database Driver.collectionProcess = s.coll.map Doc.bson ∧ s.os = u.os ∧ s.aborted = u.aborted ∧
      s.accepted = u.accepted ∧ s.finished = u.finished ∧
      ∀ i, s.queue i = u.frame.queue i ∧ s.taken (.worker i) = u.frame.taken (.worker i) := by
  obtain ⟨p, hp, hrun⟩ := standsOver_of_runs hdocs h
  refine ⟨_, hrun, hp.docs, hp.os.symm, hp.aborted.symm, ?_, ?_, fun i => ⟨?_, ?_⟩⟩
  · exact (congrArg Host.accepted hp.host).symm
  · exact (congrArg Host.finished hp.host).symm
  · rw [hp.frame, Sys.map_queue, Sys.map_queue]
    rfl
  · rw [hp.frame, Sys.map_taken, Sys.map_taken]
    rfl

/-- The documents are the records of two streams. -/
def sampleDocs : String → String → List Bson := fun _ _ => [(sampleDoc [1] 10).bson, (sampleDoc [2] 11).bson]

/-- A worker stops the second stream: it asks for the record, removes it, and kills the process. -/
def stopSession : List DriverLabel :=
  [.label (.put (stopEvent [2])), .label (.front 0)] ++
    List.replicate 5 (.own (.worker 0)) ++ [.label (.call (.worker 0) .ok)] ++ List.replicate 7 (.own (.worker 0)) ++
    List.replicate 4 (.own (.worker 0)) ++ [.label (.call (.worker 0) .ok)] ++ List.replicate 3 (.own (.worker 0)) ++
    [.label (.call (.worker 0) .ok), .label (.pop 0)]

def stoppedOne : DriverSys :=
  (check (driverStep sampleEnv (lit "mongodb")) (fun _ l => l.oneBatch = true) stopSession
    (.boot 1 sampleDocs ⟨[⟨11, none⟩], []⟩)).get (by decide +kernel)

theorem driver_refines_stop :
    ∃ s, Runs (step (service sampleEnv)) (fun _ _ => True)
        (.boot 1 [sampleDoc [1] 10, sampleDoc [2] 11] ⟨[⟨11, none⟩], []⟩) (stopSession.filterMap DriverLabel.label?) s ∧
      stoppedOne.docs Driver.database Driver.collectionProcess = s.coll.map Doc.bson ∧ s.os = stoppedOne.os ∧
      s.aborted = stoppedOne.aborted ∧ s.accepted = stoppedOne.accepted ∧ s.finished = stoppedOne.finished ∧
      ∀ i, s.queue i = stoppedOne.frame.queue i ∧ s.taken (.worker i) = stoppedOne.frame.taken (.worker i) :=
  @driver_refines sampleEnv (lit "mongodb") 1 [sampleDoc [1] 10, sampleDoc [2] 11] sampleDocs ⟨[⟨11, none⟩], []⟩ rfl
    stopSession stoppedOne (runs_get _)

/-! ### Sessions are closed -/

/-- What the thread is about to use is there, and a thread that returns has closed what it opened. -/
def DriverThread.Clean (shown : String → Str → Str) (t : DriverThread) : Prop :=
  match t.prog with
  | .ret _ => ∀ p o, t.mem.get p = some o → o.isHandle = false
  | .call (.inl op) _ => (driverOwn shown op t.mem).isSome
  | .call (.inr op) _ => op = .assertFail ∨ ∃ x, ∀ w, (serverAnswer shown op x t.mem w).isSome

/-- A thread on the driver, in step or not. -/
abbrev GoingThread (shown : String → Str → Str) (addr : Str) : Type :=
  { t : DriverThread // (driverLevel shown addr).InStep t.prog t.mem none }

namespace GoingThread

variable {shown : String → Str → Str}

def start (shown : String → Str → Str) (addr : Str) (p : Act Int) : GoingThread shown addr :=
  ⟨⟨p.subst (Driver.carryOut addr), []⟩, .between (fun _ _ h => nomatch h) nofun⟩

theorem val_start (p : Act Int) : (start shown addr p).val = ⟨p.subst (Driver.carryOut addr), []⟩ := rfl

theorem clean (t : GoingThread shown addr) : t.1.Clean shown := by
  obtain ⟨⟨prog, mem⟩, ht⟩ := t
  cases prog with
  | ret rtn => exact (ht.ret (driverLevel_sound shown addr)).1
  | call op k =>
    cases op with
    | inl op =>
      obtain ⟨y, hy, -⟩ := ht.own (driverLevel_sound shown addr)
      exact Option.isSome_of_mem hy
    | inr op => exact (ht.able (driverLevel_sound shown addr)).1

end GoingThread

/-- **One step** leaves threads that can go on. -/
theorem StandsOver.step_going {u u' : DriverSys} {p : Sys (GoingThread env.shown addr)} (h : StandsOver Subtype.val u p)
    {l : DriverLabel} (hstep : driverStep env addr l u = some u') :
    ∃ p' : Sys (GoingThread env.shown addr), StandsOver Subtype.val u' p' := by
  have hshare : ∀ τ x, u.share env τ x = some u' →
      ∃ p' : Sys (GoingThread env.shown addr), StandsOver Subtype.val u' p' := by
    intro τ x hx
    obtain ⟨⟨_, ht⟩, op, k, m, y, -, rfl, hy, hnew⟩ := h.share addr hx
    obtain ⟨-, hall⟩ := ht.able (driverLevel_sound env.shown addr)
    obtain ⟨⟨st, hrep⟩, hnext⟩ := hall x ⟨u.docs, u.os⟩ p.store y ⟨h.docs, h.os⟩ hy
    exact ⟨_, hnew ⟨⟨k y.1, y.2.1⟩, hnext⟩ st rfl hrep⟩
  cases l with
  | own τ =>
    obtain ⟨⟨_, ht⟩, op, k, m, y, -, rfl, hy, hnew⟩ := h.own hstep
    obtain ⟨y', hy', hnext⟩ := ht.own (driverLevel_sound env.shown addr)
    cases hy.symm.trans hy'
    exact ⟨_, hnew ⟨⟨k y.1, y.2⟩, hnext⟩ rfl⟩
  | label l =>
    by_cases hcall : ∃ τ ch, l = .call τ ch
    · obtain ⟨τ, ch, rfl⟩ := hcall
      simp only [driverStep] at hstep
      split_ifs at hstep
      exact hshare τ (.inl ch) hstep
    · obtain ⟨p', -, h'⟩ := h.label GoingThread.val_start (fun τ ch hl => hcall ⟨τ, ch, hl⟩) hstep
      exact ⟨p', h'⟩
  | batch τ b =>
    simp only [driverStep] at hstep
    split_ifs at hstep
    exact hshare τ (.inr b) hstep

/-- **Every session is made on objects that are there, and is closed.** In any run, whatever fails, however many
batches a query is answered in and whoever moves in between, the operation that a thread makes next can be made: what
it is about to use has been made and has not been destroyed. A thread that returns has neither a connection nor a
collection left. -/
theorem sessions_close {W : Int} {coll : List Doc} {docs : String → String → List Bson} {os : Os}
    (hdocs : docs Driver.database Driver.collectionProcess = coll.map Doc.bson) {ls : List DriverLabel}
    {u : DriverSys} (h : Runs (driverStep env addr) (fun _ _ => True) (.boot W docs os) ls u) {τ : Tid}
    {t : DriverThread} (ht : u.frame.thread τ = some t) : t.Clean env.shown := by
  have hgoing : ∃ p : Sys (GoingThread env.shown addr), StandsOver Subtype.val u p := by
    clear ht
    induction h with
    | nil => exact ⟨_, .boot hdocs⟩
    | snoc _ _ hstep ih =>
      obtain ⟨p, hp⟩ := ih
      exact hp.step_going hstep
  obtain ⟨p, hp⟩ := hgoing
  obtain ⟨x, rfl, -⟩ := hp.thread ht
  exact GoingThread.clean x

/-- A pass of the scheduler, whose query is answered in two batches, the second of which fails. -/
def failedBatch : List DriverLabel :=
  [.label .detect] ++ List.replicate 4 (.own .sched) ++ [.batch .sched (.first 1 1)] ++
    List.replicate 4 (.own .sched) ++ [.batch .sched .fails]

/-- The scheduler has the text of one record, and is about to close its session. -/
def inSession : DriverSys :=
  (check (driverStep sampleEnv (lit "mongodb")) (fun _ _ => True) failedBatch
    (.boot 1 sampleDocs ⟨[⟨11, none⟩], []⟩)).get (by decide +kernel)

theorem sessions_close_failedBatch : ((inSession.frame.thread .sched).get (by decide +kernel)).Clean sampleEnv.shown :=
  @sessions_close sampleEnv (lit "mongodb") 1 [sampleDoc [1] 10, sampleDoc [2] 11] sampleDocs ⟨[⟨11, none⟩], []⟩ rfl
    failedBatch inSession (runs_get _) .sched _ (Option.some_get _).symm

end

end PullStream
