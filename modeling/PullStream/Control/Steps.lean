import PullStream.Control.Simulation
import Mathlib.Logic.Function.Basic
/-!
# What a step can do

`step_put` … `step_appear` invert `step`, one label at a time: they give the state before and after in
terms of queues, jobs, threads and the store, and hold for every representation of threads.

For the machine over control points `CStep env st c c' st'` lists what a thread at `c` can do to the
store `st` when no driver call fails, with the control point `c'` it reaches; `cstep_of_answer` says that
there is nothing else. `FStep c c'` lists what a failed driver call leads to. A thread never stands in the
branch of a child (`Parent`), whose steps are another process's.
-/

namespace PullStream

open Function

variable {T : Type} {I : Threads T} {s u : Sys T}

/-! ### Queues, jobs and threads of an updated state -/

namespace Sys

theorem getElem?_eq_job {i : Nat} {w : WorkerContext T} (h : s.workerList[i]? = some w) :
    s.job i = w.job ∧ s.queue i = w.queue := by
  simp [job, queue, h]

theorem getElem?_of_job {i : Nat} {j : Event × T} (h : s.job i = some j) :
    s.workerList[i]? = some ⟨s.queue i, some j⟩ := by
  simp only [job] at h
  cases hw : s.workerList[i]? with
  | none => simp [hw] at h
  | some w =>
    simp only [hw, Option.bind_some] at h
    simp [queue, hw, ← h]

variable {i : Nat} {w w' : WorkerContext T} (hi : s.workerList[i]? = some w')

include hi in
theorem job_setWorker : (s.setWorker i w).job = update s.job i w.job := by
  funext j
  have hlt := (List.getElem?_eq_some_iff.mp hi).1
  by_cases hij : i = j
  · subst hij
    simp [job, setWorker, hlt]
  · simp [job, setWorker, hij, update_of_ne (Ne.symm hij)]

include hi in
theorem queue_setWorker : (s.setWorker i w).queue = update s.queue i w.queue := by
  funext j
  have hlt := (List.getElem?_eq_some_iff.mp hi).1
  by_cases hij : i = j
  · subst hij
    simp [queue, setWorker, hlt]
  · simp [queue, setWorker, hij, update_of_ne (Ne.symm hij)]

theorem thread_of_job {i : Nat} {j : Option (Event × T)} (h : u.job = update s.job i j)
    (hs : u.sched = s.sched) : u.thread = update s.thread (.worker i) (j.map (·.2)) := by
  funext τ
  cases τ with
  | worker j =>
    by_cases hij : j = i
    · subst hij
      simp [thread, h]
    · have hne : Tid.worker j ≠ .worker i := fun h => hij (Tid.worker.inj h)
      simp [thread, h, update_of_ne hij, update_of_ne hne]
  | sched => simpa [thread] using hs

theorem job_setThread {i : Nat} {ev : Event} {t t' : T} (h : s.job i = some (ev, t)) :
    (s.setThread (.worker i) t').job = update s.job i (some (ev, t')) := by
  funext j
  by_cases hij : i = j
  · subst hij
    simp only [job, setThread, List.getElem?_modify]
    rw [getElem?_of_job h]
    simp
  · rw [update_of_ne (Ne.symm hij)]
    simp only [job, setThread, List.getElem?_modify, if_neg hij, id_map']

@[simp] theorem queue_setThread (τ : Tid) (t : T) : (s.setThread τ t).queue = s.queue := by
  cases τ with
  | worker i =>
    funext j
    simp only [queue, setThread, List.getElem?_modify]
    rcases s.workerList[j]? with _ | w
    · rfl
    · by_cases hij : i = j <;> simp [hij]
  | sched => rfl

theorem thread_setThread {τ : Tid} {t t' : T} (h : s.thread τ = some t) :
    (s.setThread τ t').thread = update s.thread τ (some t') := by
  cases τ with
  | worker i =>
    obtain ⟨⟨ev, t₀⟩, hj, -⟩ := Option.map_eq_some_iff.mp h
    exact thread_of_job (job_setThread hj) rfl
  | sched =>
    funext τ
    cases τ with
    | worker i => rfl
    | sched => simp [thread, setThread]

theorem thread_sched (t : Option T) :
    ({ s with sched := t } : Sys T).thread = update s.thread .sched t := by
  funext τ
  cases τ with
  | worker i => rfl
  | sched => simp [thread]

end Sys

theorem job_boot (n : Int) (coll : List Doc) (os : Os) (i : Nat) :
    (Sys.boot n coll os : Sys T).job i = none := by
  simp only [Sys.job, Sys.boot, List.getElem?_replicate]
  split <;> rfl

theorem queue_boot (n : Int) (coll : List Doc) (os : Os) (i : Nat) :
    (Sys.boot n coll os : Sys T).queue i = [] := by
  simp only [Sys.queue, Sys.boot, List.getElem?_replicate]
  split <;> rfl

/-! ### Inversion of `step`, by label -/

theorem step_running {l : Label} (h : step I l s = some u) (hdie : ∀ p, l ≠ .die p)
    (happear : ∀ p, l ≠ .appear p) : s.aborted = false ∧ stepRunning I l s = some u := by
  cases l with
  | die p => exact absurd rfl (hdie p)
  | appear p => exact absurd rfl (happear p)
  | _ =>
    simp only [step] at h
    cases ha : s.aborted
    · simpa [ha] using h
    · simp [ha] at h

theorem step_put {ev : Event} (h : step I (.put ev) s = some u) :
    ∃ (n : Nat) (w : WorkerContext T), s.workerIndex = n ∧ s.workerList[n]? = some w ∧
      u = { s.setWorker n { w with queue := w.queue ++ [ev] } with
        workerIndex := (s.workerIndex + 1).tmod s.workerMax
        accepted := s.accepted ++ [ev] } := by
  have h := (step_running h nofun nofun).2
  simp only [stepRunning, putData] at h
  split at h
  · rename_i h0
    obtain ⟨n, hn⟩ := Int.eq_ofNat_of_zero_le h0
    rw [hn, Int.toNat_natCast] at h
    cases hw : s.workerList[n]? with
    | none => simp [hw] at h
    | some w =>
      simp only [hw, Option.some.injEq] at h
      exact ⟨n, w, hn, hw, by rw [hn]; exact h.symm⟩
  · cases h

theorem step_front {i : Nat} (h : step I (.front i) s = some u) :
    ∃ ev q, s.workerList[i]? = some ⟨ev :: q, none⟩ ∧
      u = s.setWorker i ⟨ev :: q, some (ev, I.dispatch ev)⟩ := by
  have h := (step_running h nofun nofun).2
  simp only [stepRunning] at h
  split at h
  · rename_i ev q hw
    exact ⟨ev, q, hw, (Option.some.inj h).symm⟩
  · cases h

theorem step_call {τ : Tid} {ch : Choice} (h : step I (.call τ ch) s = some u) :
    ∃ t c k x, s.thread τ = some t ∧ I.view t = .call c k ∧ answer I.shown c ch s.store = some x ∧
      u = (s.setThread τ (k x.1)).setStore x.2 := by
  have h := (step_running h nofun nofun).2
  simp only [stepRunning] at h
  split at h
  · cases h
  · rename_i t ht
    split at h
    · cases h
    · rename_i c k hv
      obtain ⟨x, hx, rfl⟩ := Option.map_eq_some_iff.mp h
      exact ⟨t, c, k, x, ht, hv, hx, rfl⟩

theorem step_pop {i : Nat} (h : step I (.pop i) s = some u) :
    ∃ ev₀ q ev t rtn, s.workerList[i]? = some ⟨ev₀ :: q, some (ev, t)⟩ ∧ I.view t = .ret rtn ∧
      u = { s.setWorker i ⟨q, none⟩ with finished := s.finished ++ [⟨i, ev, rtn⟩] } := by
  have h := (step_running h nofun nofun).2
  simp only [stepRunning] at h
  split at h
  · rename_i ev₀ q ev t hw
    split at h
    · rename_i rtn hv
      exact ⟨ev₀, q, ev, t, rtn, hw, hv, (Option.some.inj h).symm⟩
    · cases h
  · cases h

theorem step_abort {i : Nat} (h : step I (.abort i) s = some u) :
    (∃ ev t, s.job i = some (ev, t) ∧ (I.view t).call? = some .assertFail) ∧
      u = { s with aborted := true } := by
  have h := (step_running h nofun nofun).2
  simp only [stepRunning] at h
  split at h
  · rename_i ev t hj
    split at h
    · rename_i hc
      exact ⟨⟨ev, t, hj, hc⟩, (Option.some.inj h).symm⟩
    · cases h
  · cases h

theorem step_detect (h : step I .detect s = some u) :
    s.sched = none ∧ u = { s with sched := some I.detect } := by
  have h := (step_running h nofun nofun).2
  simp only [stepRunning] at h
  split at h
  · rename_i hs
    exact ⟨hs, (Option.some.inj h).symm⟩
  · cases h

theorem step_detectEnd (h : step I .detectEnd s = some u) :
    (∃ t rtn, s.sched = some t ∧ I.view t = .ret rtn) ∧ u = { s with sched := none } := by
  have h := (step_running h nofun nofun).2
  simp only [stepRunning] at h
  split at h
  · cases h
  · rename_i t hs
    split at h
    · rename_i rtn hv
      exact ⟨⟨t, rtn, hs, hv⟩, (Option.some.inj h).symm⟩
    · cases h

theorem step_die {p : Int} (h : step I (.die p) s = some u) :
    s.os.alive p = true ∧ u = { s with os := s.os.drop p } := by
  simp only [step] at h
  split at h
  · rename_i hp
    exact ⟨hp, (Option.some.inj h).symm⟩
  · cases h

theorem step_appear {p : Int} (h : step I (.appear p) s = some u) :
    s.os.alive p = false ∧ u = { s with os := s.os.add ⟨p, none⟩ } := by
  simp only [step] at h
  split at h
  · cases h
  · rename_i hp
    exact ⟨by simpa using hp, (Option.some.inj h).symm⟩

/-! ### Records of a stream and its processes -/

/-- The records of a sid, in insertion order. -/
def recs (k : Str) (coll : List Doc) : List Doc := Keyed.slot ProcessInfo.sid k coll

/-- The process was forked for the stream. -/
def Proc.runs (k : Str) (a : Proc) : Bool :=
  match a.owner with
  | some info => cStr info.sid = k
  | none => false

/-- The pids of the live processes forked for a stream, in the order of the forks. -/
def Os.live (k : Str) (os : Os) : List Int := (os.procs.filter (·.runs k)).map (·.pid)

/-- A live process that the service forked has the pid. -/
def Os.Spawned (os : Os) (p : Int) : Prop := ∃ a ∈ os.procs, a.pid = p ∧ a.owner.isSome

theorem find?_sid (k : Str) (coll : List Doc) : coll.find? (Query.sid k).matches = (recs k coll).head? :=
  Keyed.find?_slot ProcessInfo.sid k coll

theorem of_find?_pid {p : Int} {coll : List Doc} {d : Doc}
    (h : coll.find? (Query.pid p).matches = some d) : d ∈ coll ∧ d.pid = p := by
  have hmatch : (Query.pid p).matches d = true := List.find?_some h
  exact ⟨List.mem_of_find?_eq_some h, of_decide_eq_true hmatch⟩

/-- The update of `update_process_info`. -/
def setPid (k : Str) (p : Int) (coll : List Doc) : List Doc :=
  Keyed.modifyFirst (fun d => d.sid = k) (fun d => { d with pid := p }) coll

/-- The removal of `remove_process_by_stream`. -/
def dropRec (k : Str) (coll : List Doc) : List Doc := coll.eraseP fun d => d.sid = k

section

variable {j k : Str} {p q : Int} {coll : List Doc} {d : Doc} {os : Os} {a : Proc}

theorem mem_recs : d ∈ recs k coll ↔ d ∈ coll ∧ d.sid = k := Keyed.mem_slot _

theorem recs_head (h : (recs k coll).head? = some d) : d ∈ coll ∧ d.sid = k :=
  mem_recs.mp (List.mem_of_mem_head? h)

theorem recs_insert : recs k (coll ++ [d]) = if d.sid = k then recs k coll ++ [d] else recs k coll :=
  Keyed.slot_insert _ k coll d

@[simp] theorem recs_setPid_self :
    recs k (setPid k p coll) = (recs k coll).modifyHead fun d => { d with pid := p } := by
  have hsid : ∀ d : Doc, ProcessInfo.sid { d with pid := p } = d.sid := fun _ => rfl
  exact Keyed.slot_modifyFirst_self hsid k coll

theorem recs_setPid_ne (h : j ≠ k) : recs j (setPid k p coll) = recs j coll := by
  have hsid : ∀ d : Doc, ProcessInfo.sid { d with pid := p } = d.sid := fun _ => rfl
  exact Keyed.slot_modifyFirst_ne hsid h coll

theorem setPid_append {l l' : List Doc} (hsids : ((l ++ d :: l').map (·.sid)).Nodup) :
    setPid d.sid p (l ++ d :: l') = l ++ { d with pid := p } :: l' := by
  apply Keyed.modifyFirst_append
  · intro b hb
    rw [List.map_append, List.nodup_append] at hsids
    have hne := hsids.2.2 _ (List.mem_map_of_mem hb) d.sid (by simp)
    simpa using hne
  · simp

theorem sids_setPid : (setPid k p coll).map (·.sid) = coll.map (·.sid) := by
  have hsid : ∀ d : Doc, ProcessInfo.sid { d with pid := p } = d.sid := fun _ => rfl
  exact Keyed.map_modifyFirst hsid coll

@[simp] theorem recs_dropRec_self : recs k (dropRec k coll) = (recs k coll).tail :=
  Keyed.slot_eraseP_self _ k coll

theorem recs_dropRec_ne (h : j ≠ k) : recs j (dropRec k coll) = recs j coll :=
  Keyed.slot_eraseP_ne _ h coll

theorem alive_iff : os.alive p = true ↔ ∃ a ∈ os.procs, a.pid = p := by
  simp [Os.alive]

theorem alive_of_drop (h : (os.drop q).alive p = true) : os.alive p = true := by
  obtain ⟨a, ha, hpid⟩ := alive_iff.mp h
  exact alive_iff.mpr ⟨a, (List.mem_filter.mp ha).1, hpid⟩

theorem alive_add : (os.add a).alive p = (os.alive p || decide (a.pid = p)) := by
  simp [Os.alive, Os.add]

theorem alive_of_add (h : (os.add a).alive p = true) : os.alive p = true ∨ a.pid = p := by
  rw [alive_add, Bool.or_eq_true, decide_eq_true_eq] at h
  exact h

theorem live_add : (os.add a).live k = if a.runs k then os.live k ++ [a.pid] else os.live k := by
  cases h : a.runs k <;> simp [Os.live, Os.add, h]

theorem live_add_unowned (os : Os) (p : Int) (k : Str) : (os.add ⟨p, none⟩).live k = os.live k := by
  rw [live_add, if_neg]
  exact Bool.false_ne_true

theorem live_drop : (os.drop p).live k = (os.live k).filter fun q => q ≠ p := by
  rw [Os.live, Os.live, List.filter_map, List.filter_filter, Os.drop, List.filter_filter]
  refine congrArg (List.map _) (List.filter_congr fun a _ => ?_)
  exact Bool.and_comm _ _

theorem mem_live : p ∈ os.live k ↔ ∃ a ∈ os.procs, a.runs k = true ∧ a.pid = p := by
  simp [Os.live, and_assoc]

theorem runs_iff : a.runs k = true ↔ ∃ info, a.owner = some info ∧ cStr info.sid = k := by
  unfold Proc.runs
  cases a.owner <;> simp

theorem spawned_of_live (h : p ∈ os.live k) : os.Spawned p := by
  obtain ⟨a, ha, hrun, hp⟩ := mem_live.mp h
  obtain ⟨info, hown, -⟩ := runs_iff.mp hrun
  exact ⟨a, ha, hp, hown ▸ rfl⟩

theorem live_drop_of_not_mem (h : p ∉ os.live k) : (os.drop p).live k = os.live k := by
  rw [live_drop, List.filter_eq_self]
  intro q hq
  exact decide_eq_true fun heq => h (heq ▸ hq)

theorem alive_of_live (h : p ∈ os.live k) : os.alive p = true := by
  obtain ⟨a, ha, -, hp⟩ := mem_live.mp h
  exact alive_iff.mpr ⟨a, ha, hp⟩

end

/-! ### The steps of a thread over control points -/

/-- Not a point in the branch of a forked child. -/
def Ctl.Parent : Ctl → Prop
  | .childExec _ _ => False
  | _ => True

/-- What a thread at a control point can do when its driver calls succeed. -/
inductive CStep (env : Env) (st : Store) : Ctl → Choice → Ctl → Store → Prop
  | spawnFound {p : ProcessInfo} {d : Doc} (hd : (recs (cStr p.sid) st.coll).head? = some d) :
      CStep env st (.spawnQuery p) .ok (.done ErrorCode.errorStreamExist) st
  | spawnAbsent {p : ProcessInfo} (h : recs (cStr p.sid) st.coll = []) :
      CStep env st (.spawnQuery p) .ok (.spawnFork p) st
  | spawnForkFailed {p : ProcessInfo} :
      CStep env st (.spawnFork p) .forkFail (.done ErrorCode.recErrorForkFailed) st
  | spawnForked {p : ProcessInfo} {x : Int} (hx : 0 < x) (hfree : st.os.alive x = false) :
      CStep env st (.spawnFork p) (.pid x) (.spawnInsert { p with pid := x })
        ⟨st.coll, st.os.add ⟨x, some p⟩⟩
  | insert {p : ProcessInfo} :
      CStep env st (.spawnInsert p) .ok (.done ErrorCode.errorOk)
        ⟨st.coll ++ [ServerBiz.processDoc env p], st.os⟩
  | removeFound {p : ProcessInfo} {d : Doc} (hd : (recs (cStr p.sid) st.coll).head? = some d) :
      CStep env st (.removeQuery p) .ok (.removeDelete (d.seen env.shown)) st
  | removeAbsent {p : ProcessInfo} (h : recs (cStr p.sid) st.coll = []) :
      CStep env st (.removeQuery p) .ok (.done ErrorCode.recErrorStreamNotExist) st
  | delete {p : ProcessInfo} :
      CStep env st (.removeDelete p) .ok (.removeKill p) ⟨dropRec (cStr p.sid) st.coll, st.os⟩
  | kill {p : ProcessInfo} :
      CStep env st (.removeKill p) .ok (.done ErrorCode.errorOk) ⟨st.coll, st.os.drop p.pid⟩
  | reloadFound {sid : Str} {d : Doc} (hd : (recs (cStr sid) st.coll).head? = some d) :
      CStep env st (.reloadQuery sid) .ok (.reloadFork (d.seen env.shown)) st
  | reloadAbsent {sid : Str} (h : recs (cStr sid) st.coll = []) :
      CStep env st (.reloadQuery sid) .ok (.done ErrorCode.recErrorStreamNotExist) st
  | reloadForkFailed {p : ProcessInfo} :
      CStep env st (.reloadFork p) .forkFail (.done ErrorCode.errorOk) st
  | reloadForked {p : ProcessInfo} {x : Int} (hx : 0 < x) (hfree : st.os.alive x = false) :
      CStep env st (.reloadFork p) (.pid x) (.reloadUpdate { p with pid := x })
        ⟨st.coll, st.os.add ⟨x, some p⟩⟩
  | reloadUpdate {p : ProcessInfo} :
      CStep env st (.reloadUpdate p) .ok (.done ErrorCode.errorOk)
        ⟨setPid (cStr p.sid) p.pid st.coll, st.os⟩
  | snapshot : CStep env st .detectFind .ok (Ctl.detectNext (st.coll.map (Doc.seen env.shown))) st
  | probeAlive {r : ProcessInfo} {rest : List ProcessInfo} (h : st.os.alive r.pid = true) :
      CStep env st (.detectProbe r rest) .ok (Ctl.detectNext rest) st
  | probeDead {r : ProcessInfo} {rest : List ProcessInfo} (h : st.os.alive r.pid = false) :
      CStep env st (.detectProbe r rest) .ok (.detectLookup r rest) st
  | lookupFound {r : ProcessInfo} {rest : List ProcessInfo} {d : Doc}
      (hd : st.coll.find? (Query.pid r.pid).matches = some d) :
      CStep env st (.detectLookup r rest) .ok (.detectFork (d.seen env.shown) rest) st
  | lookupAbsent {r : ProcessInfo} {rest : List ProcessInfo}
      (h : st.coll.find? (Query.pid r.pid).matches = none) :
      CStep env st (.detectLookup r rest) .ok (Ctl.detectNext rest) st
  | detectForkFailed {p : ProcessInfo} {rest : List ProcessInfo} :
      CStep env st (.detectFork p rest) .forkFail (Ctl.detectNext rest) st
  | detectForked {p : ProcessInfo} {rest : List ProcessInfo} {x : Int} (hx : 0 < x)
      (hfree : st.os.alive x = false) :
      CStep env st (.detectFork p rest) (.pid x) (.detectUpdate { p with pid := x } rest)
        ⟨st.coll, st.os.add ⟨x, some p⟩⟩
  | detectUpdate {p : ProcessInfo} {rest : List ProcessInfo} :
      CStep env st (.detectUpdate p rest) .ok (Ctl.detectNext rest)
        ⟨setPid (cStr p.sid) p.pid st.coll, st.os⟩

/-- What a thread at a control point does when its driver call fails: it goes on as if nothing had been
found, or as if the write had been made. -/
inductive FStep : Ctl → Ctl → Prop
  | spawnQuery {p : ProcessInfo} : FStep (.spawnQuery p) (.spawnFork p)
  | insert {p : ProcessInfo} : FStep (.spawnInsert p) (.done ErrorCode.errorOk)
  | removeQuery {p : ProcessInfo} : FStep (.removeQuery p) (.done ErrorCode.recErrorStreamNotExist)
  | delete {p : ProcessInfo} : FStep (.removeDelete p) (.removeKill p)
  | reloadQuery {sid : Str} : FStep (.reloadQuery sid) (.done ErrorCode.recErrorStreamNotExist)
  | reloadUpdate {p : ProcessInfo} : FStep (.reloadUpdate p) (.done ErrorCode.errorOk)
  | snapshot : FStep .detectFind (.done 0)
  | lookup {r : ProcessInfo} {rest : List ProcessInfo} : FStep (.detectLookup r rest) (Ctl.detectNext rest)
  | detectUpdate {p : ProcessInfo} {rest : List ProcessInfo} :
      FStep (.detectUpdate p rest) (Ctl.detectNext rest)

theorem answer_findOne_sid {shown : String → Str → Str} {k : Str} {ch : Choice} {st : Store}
    {x : Option Text × Store} (hdb : ch ≠ .dbFail) (h : answer shown (.findOne (.sid k)) ch st = some x) :
    ch = .ok ∧ x.2 = st ∧
      ((∃ d, (recs k st.coll).head? = some d ∧ x.1 = some (d.text shown)) ∨ recs k st.coll = [] ∧ x.1 = none) := by
  cases ch with
  | ok =>
    simp only [answer, find?_sid, Option.some.injEq] at h
    subst h
    refine ⟨rfl, rfl, ?_⟩
    cases hr : recs k st.coll with
    | nil => exact .inr ⟨rfl, rfl⟩
    | cons d rest => exact .inl ⟨d, rfl, rfl⟩
  | dbFail => exact absurd rfl hdb
  | forkFail | pid p | execFail => cases h

theorem answer_fork {shown : String → Str → Str} {p : ProcessInfo} {ch : Choice} {st : Store} {x : Int × Store}
    (h : answer shown (.fork p) ch st = some x) :
    (ch = .forkFail ∧ x = (-1, st)) ∨
      ∃ y : Int, 0 < y ∧ st.os.alive y = false ∧ ch = .pid y ∧ x = (y, ⟨st.coll, st.os.add ⟨y, some p⟩⟩) := by
  cases ch with
  | forkFail => exact .inl ⟨rfl, (Option.some.inj h).symm⟩
  | pid y =>
    simp only [answer] at h
    split at h
    · rename_i hy
      exact .inr ⟨y, hy.1, hy.2, rfl, (Option.some.inj h).symm⟩
    · cases h
  | ok | dbFail | execFail => cases h

/-- **When no driver call fails, a thread does one of the steps of `CStep`.** -/
theorem cstep_of_answer {env : Env} {c : Ctl} {ch : Choice} {st : Store} {op : Call} {k : Reply op → Ctl}
    {x : Reply op × Store} (hc : c.Parent) (hdb : ch ≠ .dbFail) (hv : c.view env = .call op k)
    (h : answer env.shown op ch st = some x) : CStep env st c ch (k x.1) x.2 := by
  cases c with
  | done rtn => cases hv
  | childExec p after => exact hc.elim
  | asserting =>
    cases hv
    exact nomatch x.1
  | spawnQuery p =>
    cases hv
    obtain ⟨rfl, hst, ⟨d, hd, hx⟩ | ⟨hr, hx⟩⟩ := answer_findOne_sid hdb h
    · rw [hx, hst]
      exact .spawnFound hd
    · rw [hx, hst]
      exact .spawnAbsent hr
  | removeQuery p =>
    cases hv
    obtain ⟨rfl, hst, ⟨d, hd, hx⟩ | ⟨hr, hx⟩⟩ := answer_findOne_sid hdb h
    · rw [hx, hst]
      exact .removeFound hd
    · rw [hx, hst]
      exact .removeAbsent hr
  | reloadQuery sid =>
    cases hv
    obtain ⟨rfl, hst, ⟨d, hd, hx⟩ | ⟨hr, hx⟩⟩ := answer_findOne_sid hdb h
    · rw [hx, hst]
      exact .reloadFound hd
    · rw [hx, hst]
      exact .reloadAbsent hr
  | spawnFork p =>
    cases hv
    obtain ⟨rfl, rfl⟩ | ⟨y, hy, hfree, rfl, rfl⟩ := answer_fork h
    · exact .spawnForkFailed
    · dsimp only
      rw [if_neg (Int.not_lt.mpr (Int.le_of_lt hy)), if_pos hy]
      exact .spawnForked hy hfree
  | reloadFork p =>
    cases hv
    obtain ⟨rfl, rfl⟩ | ⟨y, hy, hfree, rfl, rfl⟩ := answer_fork h
    · exact .reloadForkFailed
    · dsimp only
      rw [if_neg (Int.not_lt.mpr (Int.le_of_lt hy)), if_pos hy]
      exact .reloadForked hy hfree
  | detectFork p rest =>
    cases hv
    obtain ⟨rfl, rfl⟩ | ⟨y, hy, hfree, rfl, rfl⟩ := answer_fork h
    · exact .detectForkFailed
    · dsimp only
      rw [if_neg (Int.not_lt.mpr (Int.le_of_lt hy)), if_pos hy]
      exact .detectForked hy hfree
  | spawnInsert p =>
    cases hv
    cases ch <;> cases h
    · exact .insert
    · exact absurd rfl hdb
  | removeDelete p =>
    cases hv
    cases ch <;> cases h
    · exact .delete
    · exact absurd rfl hdb
  | removeKill p =>
    cases hv
    cases ch <;> cases h
    exact .kill
  | reloadUpdate p =>
    cases hv
    cases ch <;> cases h
    · exact .reloadUpdate
    · exact absurd rfl hdb
  | detectFind =>
    cases hv
    cases ch <;> cases h
    · dsimp only
      rw [ServerBiz.decodeAll_text]
      have hall : st.coll.filter Query.all.matches = st.coll := List.filter_eq_self.mpr fun _ _ => rfl
      rw [hall]
      exact .snapshot
    · exact absurd rfl hdb
  | detectProbe r rest =>
    cases hv
    cases ch <;> cases h
    dsimp only
    cases ha : st.os.alive r.pid
    · exact .probeDead ha
    · exact .probeAlive ha
  | detectLookup r rest =>
    cases hv
    cases ch <;> cases h
    · dsimp only
      cases hf : st.coll.find? (Query.pid r.pid).matches with
      | none => exact .lookupAbsent hf
      | some d => exact .lookupFound hf
    · exact absurd rfl hdb
  | detectUpdate p rest =>
    cases hv
    cases ch <;> cases h
    · exact .detectUpdate
    · exact absurd rfl hdb

end PullStream
