import PullStream.Control.Steps
import PullStream.Base.Ledger
/-!
# Configurations

A configuration `Conf` shows a state of the machine over control points as functions: what every thread
is at, which event every worker is busy with, what every queue holds. `Moves env v l v'` lists what each
label does to a configuration, and `moves_of_step` says that a step does nothing else. From here on an
invariant of the service is a predicate on configurations that `Moves` keeps.

The first one is `Conf.Fits`: a worker that is busy has the event at the front of its queue and stands in
the function for the type of this event, with the sid of the event; the scheduler stands in
`process_alive_detect`. It holds in every run, whatever fails (`fits_of_runs`).
-/

namespace PullStream

open Function Transition Family

structure Conf where
  thread : Tid → Option Ctl
  event : Nat → Option Event
  queue : Nat → List Event
  workers : Nat
  workerIndex : Int
  workerMax : Int
  store : Store
  aborted : Bool
  accepted : List Event
  finished : List Done

def Sys.conf (s : Sys Ctl) : Conf where
  thread := s.thread
  event i := (s.job i).map (·.1)
  queue := s.queue
  workers := s.workerList.length
  workerIndex := s.workerIndex
  workerMax := s.workerMax
  store := s.store
  aborted := s.aborted
  accepted := s.accepted
  finished := s.finished

/-- What a thread at `c` does when its call is answered with the choice `ch`. -/
def Acts (env : Env) (st : Store) (c : Ctl) (ch : Choice) (c' : Ctl) (st' : Store) : Prop :=
  ∃ op k x, c.view env = .call op k ∧ answer env.shown op ch st = some x ∧ k x.1 = c' ∧ x.2 = st'

theorem Acts.cstep {env : Env} {st st' : Store} {c c' : Ctl} {ch : Choice}
    (h : Acts env st c ch c' st') (hc : c.Parent) (hdb : ch ≠ .dbFail) : CStep env st c ch c' st' := by
  obtain ⟨op, k, x, hv, ha, rfl, rfl⟩ := h
  exact cstep_of_answer hc hdb hv ha

theorem step_call_code {env : Env} {s u : Sys (Act Int)} {τ : Tid} {ch : Choice} {c : Ctl}
    (hrun : s.aborted = false) (ht : s.thread τ = some (c.code env)) :
    step (service env) (.call τ ch) s = some u ↔
      ∃ c' st', Acts env s.store c ch c' st' ∧ u = (s.setThread τ (c'.code env)).setStore st' := by
  have hview : (service env).view (c.code env) = (c.view env).map (Ctl.code env) := Ctl.code_represents env c
  simp only [step, hrun, Bool.false_eq_true, if_false, stepRunning, ht, hview]
  cases hc : c.view env with
  | ret rtn =>
    constructor
    · intro h
      cases h
    · rintro ⟨c', st', ⟨op, k, x, hv, -⟩, -⟩
      rw [hc] at hv
      cases hv
  | call op k =>
    simp only [View.map, Option.map_eq_some_iff]
    constructor
    · rintro ⟨x, hx, rfl⟩
      exact ⟨k x.1, x.2, ⟨op, k, x, hc, hx, rfl, rfl⟩, rfl⟩
    · rintro ⟨c', st', ⟨op', k', x, hv, hx, rfl, rfl⟩, rfl⟩
      rw [hc] at hv
      cases hv
      exact ⟨x, hx, rfl⟩

/-- What a label does. -/
inductive Moves (env : Env) (v : Conf) : Label → Conf → Prop
  | put {ev : Event} {n : Nat} (hn : v.workerIndex = n) (hlt : n < v.workers) :
      Moves env v (.put ev)
        { v with
          queue := update v.queue n (v.queue n ++ [ev])
          workerIndex := (v.workerIndex + 1).tmod v.workerMax
          accepted := v.accepted ++ [ev] }
  | front {i : Nat} {ev : Event} {q : List Event} (hidle : v.event i = none)
      (hq : v.queue i = ev :: q) :
      Moves env v (.front i)
        { v with
          thread := update v.thread (.worker i) (some (Ctl.start ev))
          event := update v.event i (some ev) }
  | call {τ : Tid} {ch : Choice} {c c' : Ctl} {st' : Store} (ht : v.thread τ = some c)
      (hc : Acts env v.store c ch c' st') :
      Moves env v (.call τ ch) { v with thread := update v.thread τ (some c'), store := st' }
  | pop {i : Nat} {ev₀ ev : Event} {q : List Event} {rtn : Int} (hev : v.event i = some ev)
      (ht : v.thread (.worker i) = some (.done rtn)) (hq : v.queue i = ev₀ :: q) :
      Moves env v (.pop i)
        { v with
          thread := update v.thread (.worker i) none
          event := update v.event i none
          queue := update v.queue i q
          finished := v.finished ++ [⟨i, ev, rtn⟩] }
  | abort {i : Nat} (ht : v.thread (.worker i) = some .asserting) :
      Moves env v (.abort i) { v with aborted := true }
  | detect (ht : v.thread .sched = none) :
      Moves env v .detect { v with thread := update v.thread .sched (some .detectFind) }
  | detectEnd {rtn : Int} (ht : v.thread .sched = some (.done rtn)) :
      Moves env v .detectEnd { v with thread := update v.thread .sched none }
  | die {p : Int} (hp : v.store.os.alive p = true) :
      Moves env v (.die p) { v with store := ⟨v.store.coll, v.store.os.drop p⟩ }
  | appear {p : Int} (hp : v.store.os.alive p = false) :
      Moves env v (.appear p) { v with store := ⟨v.store.coll, v.store.os.add ⟨p, none⟩⟩ }

section

variable {env : Env} {s u : Sys Ctl} {l : Label}

theorem event_of_job {s u : Sys Ctl} {i : Nat} {j : Option (Event × Ctl)}
    (h : u.job = update s.job i j) : u.conf.event = update s.conf.event i (j.map (·.1)) := by
  funext i'
  by_cases hi : i' = i
  · subst hi
    simp [Sys.conf, h]
  · simp [Sys.conf, h, hi]

theorem view_ret {c : Ctl} {rtn : Int} (h : c.view env = .ret rtn) : c = .done rtn := by
  cases c <;> cases h
  rfl

theorem call?_assertFail {c : Ctl} (h : (c.view env).call? = some .assertFail) : c = .asserting := by
  cases c <;> first | rfl | cases h

/-- **A step changes the configuration as `Moves` says.** -/
theorem moves_of_step (h : step (points env) l s = some u) : Moves env s.conf l u.conf := by
  cases l with
  | put ev =>
    obtain ⟨n, ⟨q, j⟩, hn, hw, rfl⟩ := step_put h
    have hlt : n < s.conf.workers := (List.getElem?_eq_some_iff.mp hw).1
    have hlen : (s.setWorker n ⟨q ++ [ev], j⟩).workerList.length = s.workerList.length :=
      List.length_set
    obtain ⟨hjob, hqi⟩ := Sys.getElem?_eq_job hw
    have hj : (s.setWorker n ⟨q ++ [ev], j⟩).job = s.job :=
      (Sys.job_setWorker hw).trans (update_eq_self_iff.mpr hjob.symm)
    have hth : (s.setWorker n ⟨q ++ [ev], j⟩).thread = s.thread :=
      (Sys.thread_of_job (Sys.job_setWorker hw) rfl).trans
        (update_eq_self_iff.mpr (by simp [Sys.thread, hjob]))
    have hput : Moves env s.conf (.put ev) _ := .put hn hlt
    rw [show s.conf.queue n = q from hqi] at hput
    convert hput using 1
    exact Conf.mk.injEq .. ▸ ⟨hth, funext fun i => congrArg (Option.map _) (congrFun hj i),
      Sys.queue_setWorker hw, hlen, rfl, rfl, rfl, rfl, rfl, rfl⟩
  | front i =>
    obtain ⟨ev, q, hw, rfl⟩ := step_front h
    have hj := Sys.job_setWorker (w := ⟨ev :: q, some (ev, Ctl.start ev)⟩) hw
    have hq := Sys.queue_setWorker (w := ⟨ev :: q, some (ev, Ctl.start ev)⟩) hw
    obtain ⟨hjob, hqi⟩ := Sys.getElem?_eq_job hw
    have hidle : s.conf.event i = none := by simp [Sys.conf, hjob]
    have hfront : Moves env s.conf (.front i) _ := .front hidle hqi
    convert hfront using 1
    rw [show (⟨ev :: q, some (ev, Ctl.start ev)⟩ : WorkerContext Ctl).queue = s.queue i from hqi.symm,
      update_eq_self] at hq
    have hev := event_of_job hj
    have hth := Sys.thread_of_job hj
      (rfl : (s.setWorker i ⟨ev :: q, some (ev, Ctl.start ev)⟩).sched = s.sched)
    exact Conf.mk.injEq .. ▸ ⟨hth, hev, hq, List.length_set, rfl, rfl, rfl, rfl, rfl, rfl⟩
  | call τ ch =>
    obtain ⟨c, op, k, x, ht, hv, ha, rfl⟩ := step_call h
    have hcall := Moves.call (v := s.conf) ht ⟨op, k, x, hv, ha, rfl, rfl⟩
    convert hcall using 1
    refine Conf.mk.injEq .. ▸ ⟨Sys.thread_setThread ht, ?_, Sys.queue_setThread τ _, ?_, ?_⟩
    · cases τ with
      | worker i =>
        obtain ⟨⟨ev, c₀⟩, hj, -⟩ := Option.map_eq_some_iff.mp ht
        have hjob : (s.setThread (.worker i) (k x.1)).job = _ := Sys.job_setThread hj
        have hev := event_of_job hjob
        have hself : s.conf.event i = some ev := by simp [Sys.conf, hj]
        rw [show (some (ev, k x.1)).map (·.1) = s.conf.event i from hself.symm, update_eq_self] at hev
        exact hev
      | sched => rfl
    · cases τ with
      | worker i => exact List.length_modify _ _ _
      | sched => rfl
    · cases τ <;> exact ⟨rfl, rfl, rfl, rfl, rfl, rfl⟩
  | pop i =>
    obtain ⟨ev₀, q, ev, c, rtn, hw, hv, rfl⟩ := step_pop h
    obtain ⟨hjob, hqi⟩ := Sys.getElem?_eq_job hw
    rw [view_ret hv] at hjob
    have hj := Sys.job_setWorker (w := ⟨q, none⟩) hw
    have hev : s.conf.event i = some ev := by simp [Sys.conf, hjob]
    have ht : s.conf.thread (.worker i) = some (.done rtn) := by simp [Sys.conf, Sys.thread, hjob]
    have hpop : Moves env s.conf (.pop i) _ := .pop hev ht hqi
    convert hpop using 1
    have hth := Sys.thread_of_job hj (rfl : (s.setWorker i ⟨q, none⟩).sched = s.sched)
    exact Conf.mk.injEq .. ▸ ⟨hth, event_of_job hj, Sys.queue_setWorker hw, List.length_set, rfl, rfl, rfl, rfl,
      rfl, rfl⟩
  | abort i =>
    obtain ⟨⟨ev, c, hj, hc⟩, rfl⟩ := step_abort h
    rw [call?_assertFail hc] at hj
    exact .abort (by simp [Sys.conf, Sys.thread, hj])
  | detect =>
    obtain ⟨hs, rfl⟩ := step_detect h
    have hdetect : Moves env s.conf .detect _ := .detect hs
    rwa [show s.conf.thread = s.thread from rfl, ← Sys.thread_sched] at hdetect
  | detectEnd =>
    obtain ⟨⟨c, rtn, hs, hv⟩, rfl⟩ := step_detectEnd h
    rw [view_ret hv] at hs
    have hend : Moves env s.conf .detectEnd _ := .detectEnd hs
    rwa [show s.conf.thread = s.thread from rfl, ← Sys.thread_sched] at hend
  | die p =>
    obtain ⟨hp, rfl⟩ := step_die h
    exact .die (v := s.conf) hp
  | appear p =>
    obtain ⟨hp, rfl⟩ := step_appear h
    exact .appear (v := s.conf) hp

end

theorem Moves.mem_queue {env : Env} {v v' : Conf} {l : Label} (h : Moves env v l v') {i : Nat} {ev : Event}
    (hev : ev ∈ v'.queue i) : ev ∈ v.queue i ∨ l = .put ev := by
  cases h with
  | @put ev' n hn hlt =>
    replace hev : ev ∈ update v.queue n (v.queue n ++ [ev']) i := hev
    by_cases hi : i = n
    · subst hi
      rw [update_self] at hev
      rcases List.mem_append.mp hev with hev | hev
      · exact .inl hev
      · exact .inr (congrArg _ (List.mem_singleton.mp hev).symm)
    · rw [update_of_ne hi] at hev
      exact .inl hev
  | @pop n ev₀ ev' q rtn hbusy ht hq =>
    replace hev : ev ∈ update v.queue n q i := hev
    by_cases hi : i = n
    · subst hi
      rw [update_self] at hev
      exact .inl (hq ▸ List.mem_cons_of_mem _ hev)
    · rw [update_of_ne hi] at hev
      exact .inl hev
  | _ => exact .inl hev

/-! ### Threads stand where they belong -/

/-- A point of the function for the type of the event, with the sid of the event, or with what it looks like in the
record that has been found. -/
def Ctl.Serves (env : Env) (ev : Event) : Ctl → Prop
  | .done _ => True
  | .spawnQuery p | .spawnFork p | .spawnInsert p => ev.type = .createProcess ∧ cStr p.sid = ev.key
  | .removeQuery p => ev.type = .removeProcess ∧ cStr p.sid = ev.key
  | .removeDelete p | .removeKill p => ev.type = .removeProcess ∧ p.sid = env.shown "sid" ev.key
  | .reloadQuery sid => ev.type = .reloadProcess ∧ cStr sid = ev.key
  | .reloadFork p | .reloadUpdate p => ev.type = .reloadProcess ∧ p.sid = env.shown "sid" ev.key
  | .asserting => ev.type = .terminateProcess
  | _ => False

/-- A point of `process_alive_detect`. -/
def Ctl.Scans : Ctl → Prop
  | .done _ | .detectFind | .detectProbe _ _ | .detectLookup _ _ | .detectFork _ _
  | .detectUpdate _ _ => True
  | _ => False

structure Conf.Fits (env : Env) (v : Conf) : Prop where
  front : ∀ i ev, v.event i = some ev → ∃ q, v.queue i = ev :: q
  worker : ∀ i c, v.thread (.worker i) = some c → ∃ ev, v.event i = some ev ∧ c.Serves env ev
  sched : ∀ c, v.thread .sched = some c → c.Scans

theorem Ctl.Serves.parent {env : Env} {ev : Event} {c : Ctl} (h : c.Serves env ev) : c.Parent := by
  cases c <;> trivial

theorem Ctl.Scans.parent {c : Ctl} (h : c.Scans) : c.Parent := by
  cases c <;> trivial

theorem Ctl.serves_start (env : Env) (ev : Event) : (Ctl.start ev).Serves env ev := by
  unfold Ctl.start
  cases h : ev.type <;> simp [Ctl.Serves, h, Event.key]

theorem Ctl.scans_detectNext (l : List ProcessInfo) : (Ctl.detectNext l).Scans := by
  cases l <;> trivial

theorem CStep.serves {env : Env} {st st' : Store} {c c' : Ctl} {ch : Choice} {ev : Event}
    (h : CStep env st c ch c' st') (hc : c.Serves env ev) : c'.Serves env ev := by
  cases h with
  | removeFound hd | reloadFound hd =>
    obtain ⟨hty, hkey⟩ := hc
    have hsid := (recs_head hd).2
    exact ⟨hty, congrArg (env.shown "sid") (hsid.trans hkey)⟩
  | _ => trivial

theorem CStep.scans {env : Env} {st st' : Store} {c c' : Ctl} {ch : Choice}
    (h : CStep env st c ch c' st') (hc : c.Scans) : c'.Scans := by
  cases h with
  | _ => first | trivial | exact Ctl.scans_detectNext _

theorem Acts.fstep {env : Env} {st st' : Store} {c c' : Ctl} (hp : c.Parent)
    (h : Acts env st c .dbFail c' st') : FStep c c' ∧ st' = st := by
  obtain ⟨op, k, x, hv, ha, rfl, rfl⟩ := h
  cases c with
  | childExec p after => exact hp.elim
  | done rtn => cases hv
  | _ =>
    cases hv
    cases ha
    all_goals exact ⟨by constructor, rfl⟩

theorem FStep.serves {env : Env} {c c' : Ctl} {ev : Event} (h : FStep c c')
    (hc : c.Serves env ev) : c'.Serves env ev := by
  cases h with
  | spawnQuery | delete => exact hc
  | snapshot | lookup | detectUpdate => exact hc.elim
  | _ => trivial

theorem FStep.scans {c c' : Ctl} (h : FStep c c') (hc : c.Scans) : c'.Scans := by
  cases h with
  | lookup | detectUpdate => exact Ctl.scans_detectNext _
  | _ => trivial

namespace Conf.Fits

variable {env : Env} {v v' : Conf} {l : Label}

theorem parent (h : v.Fits env) {τ : Tid} {c : Ctl} (ht : v.thread τ = some c) : c.Parent := by
  cases τ with
  | worker i =>
    obtain ⟨ev, -, hc⟩ := h.worker i c ht
    exact hc.parent
  | sched => exact (h.sched c ht).parent

theorem idle (h : v.Fits env) {i : Nat} (hi : v.event i = none) : v.thread (.worker i) = none := by
  refine Option.eq_none_iff_forall_not_mem.mpr fun c hc => ?_
  obtain ⟨ev, hev, -⟩ := h.worker i c hc
  rw [hi] at hev
  cases hev

theorem acts (h : v.Fits env) {τ : Tid} {c c' : Ctl} {ch : Choice} {st' : Store}
    (ht : v.thread τ = some c) (hc : Acts env v.store c ch c' st') :
    (∀ ev, c.Serves env ev → c'.Serves env ev) ∧ (c.Scans → c'.Scans) := by
  by_cases hdb : ch = .dbFail
  · subst hdb
    have hstep := (hc.fstep (h.parent ht)).1
    exact ⟨fun _ => hstep.serves, hstep.scans⟩
  · have hstep := hc.cstep (h.parent ht) hdb
    exact ⟨fun _ => hstep.serves, hstep.scans⟩

theorem move (h : v.Fits env) (hm : Moves env v l v') : v'.Fits env := by
  cases hm with
  | put hn hlt =>
    rename_i ev n
    refine ⟨fun i ev' hev => ?_, h.worker, h.sched⟩
    obtain ⟨q, hq⟩ := h.front i ev' hev
    by_cases hi : i = n
    · subst hi
      exact ⟨q ++ [ev], by simp [hq]⟩
    · exact ⟨q, by simp [hi, hq]⟩
  | front hidle hq =>
    rename_i i ev q
    refine ⟨fun j ev' hev => ?_, fun j c hc => ?_, h.sched⟩
    · rcases of_update_some hev with ⟨rfl, rfl⟩ | ⟨-, hev⟩
      · exact ⟨q, hq⟩
      · exact h.front j ev' hev
    · rcases of_update_some hc with ⟨hj, rfl⟩ | ⟨hj, hc⟩
      · cases hj
        exact ⟨ev, update_self .., Ctl.serves_start env ev⟩
      · obtain ⟨ev', hev, hs⟩ := h.worker j c hc
        exact ⟨ev', (update_of_ne (fun he => hj (congrArg _ he)) ..).trans hev, hs⟩
  | call ht hc =>
    rename_i τ ch c c' st'
    obtain ⟨hserves, hscans⟩ := h.acts ht hc
    refine ⟨h.front, fun j c₁ hc₁ => ?_, fun c₁ hc₁ => ?_⟩
    · rcases of_update_some hc₁ with ⟨rfl, rfl⟩ | ⟨-, hc₁⟩
      · obtain ⟨ev, hev, hs⟩ := h.worker j c ht
        exact ⟨ev, hev, hserves ev hs⟩
      · exact h.worker j c₁ hc₁
    · rcases of_update_some hc₁ with ⟨rfl, rfl⟩ | ⟨-, hc₁⟩
      · exact hscans (h.sched c ht)
      · exact h.sched c₁ hc₁
  | pop hev ht hq =>
    rename_i i ev₀ ev q rtn
    refine ⟨fun j ev' hev' => ?_, fun j c hc => ?_, h.sched⟩
    · obtain ⟨hj, hev'⟩ := of_update_none hev'
      obtain ⟨q', hq'⟩ := h.front j ev' hev'
      exact ⟨q', (update_of_ne hj ..).trans hq'⟩
    · obtain ⟨hj, hc⟩ := of_update_none hc
      obtain ⟨ev', hev', hs⟩ := h.worker j c hc
      exact ⟨ev', (update_of_ne (fun he => hj (congrArg _ he)) ..).trans hev', hs⟩
  | abort | die | appear => exact ⟨h.front, h.worker, h.sched⟩
  | detect =>
    refine ⟨h.front, h.worker, fun c hc => ?_⟩
    rcases of_update_some (f := v.thread) (i := .sched) (j := .sched) hc with ⟨-, rfl⟩ | ⟨hne, -⟩
    · trivial
    · exact absurd rfl hne
  | detectEnd =>
    refine ⟨h.front, h.worker, fun c hc => ?_⟩
    exact absurd rfl (of_update_none (f := v.thread) (i := .sched) hc).1

end Conf.Fits

@[simp] theorem thread_boot (n : Int) (coll : List Doc) (os : Os) (τ : Tid) :
    (Sys.boot n coll os : Sys Ctl).conf.thread τ = none := by
  cases τ with
  | worker i => simp [Sys.conf, Sys.thread, job_boot]
  | sched => rfl

theorem fits_boot (env : Env) (n : Int) (coll : List Doc) (os : Os) : (Sys.boot n coll os : Sys Ctl).conf.Fits env :=
  ⟨by simp [Sys.conf, job_boot], by simp, by simp⟩

/-- **Threads stand where they belong in every run.** -/
theorem fits_of_runs {env : Env} {ok : Sys Ctl → Label → Prop} {s u : Sys Ctl} {ls : List Label}
    (h : s.conf.Fits env) (hrun : Runs (step (points env)) ok s ls u) : u.conf.Fits env :=
  hrun.inv (fun t => t.conf.Fits env) h fun _ _ _ ht _ hstep => ht.move (moves_of_step hstep)

/-! ### Assumptions about runs -/

/-- No driver call fails. -/
def Label.dbOk : Label → Bool
  | .call _ .dbFail => false
  | _ => true

/-- No `fork` fails. -/
def Label.forkOk : Label → Bool
  | .call _ .forkFail => false
  | _ => true

/-- A `fork` returns a pid that no process and no record of the host has had. -/
def Sys.freshFork {T : Type} (s : Sys T) : Label → Bool
  | .call _ (.pid p) => p ∉ s.os.used
  | _ => true

/-- No process that the service forked ends by itself. -/
def Sys.noCrash {T : Type} (s : Sys T) : Label → Bool
  | .die p => s.os.procs.all fun a => a.pid ≠ p || a.owner.isNone
  | _ => true

theorem Label.dbOk_call {τ : Tid} {ch : Choice} (h : (Label.call τ ch).dbOk = true) : ch ≠ .dbFail := by
  rintro rfl
  cases h

theorem Conf.Fits.cstep {env : Env} {v : Conf} (h : v.Fits env) {τ : Tid} {c c' : Ctl} {ch : Choice}
    {st' : Store} (ht : v.thread τ = some c) (hdb : (Label.call τ ch).dbOk = true)
    (hc : Acts env v.store c ch c' st') : CStep env v.store c ch c' st' :=
  hc.cstep (h.parent ht) (Label.dbOk_call hdb)

theorem job_iff {s : Sys Ctl} {i : Nat} {ev : Event} {c : Ctl} :
    s.job i = some (ev, c) ↔ s.conf.event i = some ev ∧ s.conf.thread (.worker i) = some c := by
  simp only [Sys.conf, Sys.thread]
  cases s.job i <;> simp [Prod.ext_iff]

end PullStream
