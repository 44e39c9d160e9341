import PullStream.Control.Progress
/-!
# What a child of the service does

After a `fork` the child has a copy of the service with all its queues, but of its threads only the one that
called `fork` (`Sys.forkChild`). Its steps are those of this thread, while other processes work on the store
(`childStep`). The thread is about to call `execl`. If `execl` fails, the function that forked ends without a
`return`, and the thread goes on where the parent's does: a worker pops the event and takes the next one of the
copied queue, and the scheduler goes through the rest of its pass and begins another one.

So the child acts as the service in some run exactly if `execl` may return (`child_never_acts_iff`).
-/

namespace PullStream

open Transition ServerBiz ProcessCtl

/-- The call changes the store. -/
def Call.writes : Call → Bool
  | .insert _ | .update _ _ | .remove _ => true
  | _ => false

/-- The label is of a step that the thread takes. -/
def Label.ofThread (τ : Tid) : Label → Bool
  | .call σ _ => σ = τ
  | .front i | .pop i | .abort i => τ = .worker i
  | .detect | .detectEnd => τ = .sched
  | _ => false

inductive ChildLabel where
  | own (l : Label)
  /-- Other processes change the collection and the process table. -/
  | world (st : Store)

/-- `execl` fails, the only way it returns. -/
def ChildLabel.execReturns : ChildLabel → Bool
  | .own (.call _ .execFail) => true
  | _ => false

section

variable {T : Type}

/-- The child of a thread that forks, which `t` is to go on with. -/
def Sys.forkChild (s : Sys T) (τ : Tid) (t : T) : Sys T := s.setThread τ t

def childStep (I : Threads T) (τ : Tid) (l : ChildLabel) (s : Sys T) : Option (Sys T) :=
  match l with
  | .own l => if l.ofThread τ then step I l s else none
  | .world st => some (s.setStore st)

/-- The step pops or dispatches an event, begins a scheduler iteration, or writes to the store. -/
def Sys.actsAsService (I : Threads T) (s : Sys T) : ChildLabel → Bool
  | .own (.front _) | .own (.pop _) | .own .detect => true
  | .own (.call τ _) => (s.next I τ).any Call.writes
  | _ => false

end

/-- In no run does the child act as the service, whatever comes of its calls: `returns` says whether its `execl`
may return. -/
def NeverActs {T : Type} (I : Threads T) (τ : Tid) (returns : Bool) (s : Sys T) : Prop :=
  ∀ ls u, Runs (childStep I τ) (fun _ l => l.execReturns = true → returns = true) s ls u →
    Runs (childStep I τ) (fun t l => t.actsAsService I l = false) s ls u

/-! ### A child that waits for `execl` -/

section

variable {env env' : Env} {s t u : Sys (Act Int)} {τ : Tid} {l : ChildLabel} {c : Ctl} {op : Call}
  {k : Reply op → Act Int}

theorem view_of_code (h : c.code env = .call op k) : ∃ k', c.view env = .call op k' ∧ ∀ x, k x = (k' x).code env := by
  have hview : Prog.view (c.code env) = (c.view env).map (Ctl.code env) := Ctl.code_represents env c
  rw [h] at hview
  cases hv : c.view env with
  | ret a =>
    rw [hv] at hview
    cases hview
  | call op' k' =>
    rw [hv] at hview
    cases hview
    exact ⟨k', rfl, fun _ => rfl⟩

/-- The thread is at the `execl` of a child. -/
def AtExec (τ : Tid) (s : Sys (Act Int)) : Prop := ∃ cmd f, s.thread τ = some (.call (.execl cmd) f)

/-- **Until `execl` returns a child takes no step of its own.** -/
theorem AtExec.childStep (h : AtExec τ t) (hstep : childStep (service env') τ l t = some u)
    (hexec : l.execReturns = false) : (∃ st, l = .world st) ∧ AtExec τ u := by
  obtain ⟨cmd, f, ht⟩ := h
  cases l with
  | world st =>
    cases hstep
    exact ⟨⟨st, rfl⟩, cmd, f, ht⟩
  | own l =>
    simp only [PullStream.childStep] at hstep
    split_ifs at hstep with hl
    cases l with
    | call σ ch =>
      obtain rfl : σ = τ := of_decide_eq_true hl
      obtain ⟨p, op, k, x, hp, hv, hx, -⟩ := step_call hstep
      cases ht.symm.trans hp
      cases hv
      cases ch <;> cases hx
      cases hexec
    | front i =>
      obtain rfl : τ = .worker i := of_decide_eq_true hl
      obtain ⟨ev, q, hw, -⟩ := step_front hstep
      rw [Sys.thread, (Sys.getElem?_eq_job hw).1] at ht
      cases ht
    | pop i =>
      obtain rfl : τ = .worker i := of_decide_eq_true hl
      obtain ⟨ev₀, q, ev, p, rtn, hw, hv, -⟩ := step_pop hstep
      rw [Sys.thread, (Sys.getElem?_eq_job hw).1] at ht
      cases ht
      cases hv
    | abort i =>
      obtain rfl : τ = .worker i := of_decide_eq_true hl
      obtain ⟨⟨ev, p, hj, hc⟩, -⟩ := step_abort hstep
      rw [Sys.thread, hj] at ht
      cases ht
      cases hc
    | detect =>
      obtain rfl : τ = .sched := of_decide_eq_true hl
      have hs := (step_detect hstep).1
      cases ht.symm.trans hs
    | detectEnd =>
      obtain rfl : τ = .sched := of_decide_eq_true hl
      obtain ⟨⟨p, rtn, hs, hv⟩, -⟩ := step_detectEnd hstep
      cases ht.symm.trans hs
      cases hv
    | put | die | appear => cases hl

theorem fork_child {param : ProcessInfo} {k : Int → Act Int} (h : c.code env = .call (.fork param) k) :
    ∃ p after, k 0 = (Ctl.childExec p after).code env ∧ (∀ ev, c.Serves env ev → ∃ rtn, after = .done rtn) ∧
      (c.Scans → ∃ rest, after = .detectNext rest) := by
  obtain ⟨k', hv, hk⟩ := view_of_code h
  cases c with
  | spawnFork p =>
    cases hv
    exact ⟨_, _, hk 0, fun _ _ => ⟨_, rfl⟩, nofun⟩
  | reloadFork p =>
    cases hv
    exact ⟨_, _, hk 0, fun _ _ => ⟨_, rfl⟩, nofun⟩
  | detectFork p rest =>
    cases hv
    exact ⟨_, _, hk 0, fun _ => nofun, fun _ => ⟨rest, rfl⟩⟩
  | _ => cases hv

/-! ### A child whose `execl` returns -/

/-- After its `execl` the thread has an event to pop or a pass to go on with. -/
def GoesOn (τ : Tid) (queue : Nat → List Event) (after : Ctl) : Prop :=
  (∃ i ev q rtn, τ = .worker i ∧ queue i = ev :: q ∧ after = .done rtn) ∨ ∃ rest, τ = .sched ∧ after = .detectNext rest

theorem goesOn_of_fits {v : Sys Ctl} {after : Ctl} (hfits : v.conf.Fits env) (hc : v.thread τ = some c)
    (hserves : ∀ ev, c.Serves env ev → ∃ rtn, after = .done rtn) (hscans : c.Scans → ∃ rest, after = .detectNext rest) :
    GoesOn τ v.queue after := by
  cases τ with
  | worker i =>
    obtain ⟨ev, hev, hs⟩ := hfits.worker i c hc
    obtain ⟨q, hq⟩ := hfits.front i ev hev
    obtain ⟨rtn, hafter⟩ := hserves ev hs
    exact .inl ⟨i, ev, q, rtn, rfl, hq, hafter⟩
  | sched =>
    obtain ⟨rest, hafter⟩ := hscans (hfits.sched c hc)
    exact .inr ⟨rest, rfl, hafter⟩

theorem childStep_call {ch : Choice} {op : Call} {k : Reply op → Ctl} {x : Reply op × Store} (hrun : t.aborted = false)
    (ht : t.thread τ = some (c.code env)) (hv : c.view env = .call op k)
    (hx : answer env'.shown op ch t.store = some x) :
    childStep (service env') τ (.own (.call τ ch)) t = some ((t.setThread τ ((k x.1).code env)).setStore x.2) := by
  have hview : (service env').view (c.code env) = .call op fun r => (k r).code env := by
    have hrep := Ctl.code_represents env c
    rw [hv] at hrep
    exact hrep
  exact (if_pos (decide_eq_true rfl)).trans (step_of_call hrun ht hview hx)

theorem thread_setThread_setStore {a : Act Int} (ht : t.thread τ = some a) (a' : Act Int) (st : Store) :
    ((t.setThread τ a').setStore st).thread τ = some a' := by
  have hset : (t.setThread τ a').thread = _ := Sys.thread_setThread ht
  exact (congrFun hset τ).trans (Function.update_self ..)

theorem aborted_setThread_setStore (hrun : t.aborted = false) (τ : Tid) (a : Act Int) (st : Store) :
    ((t.setThread τ a).setStore st).aborted = false := by
  cases τ <;> exact hrun

theorem pass_ends {rest : List ProcessInfo} (hrun : t.aborted = false)
    (ht : t.thread .sched = some ((Ctl.detectNext rest).code env)) :
    ∃ ls u, Runs (childStep (service env') .sched) (fun _ _ => True) t ls u ∧ u.aborted = false ∧
      u.thread .sched = some ((Ctl.done 0).code env) := by
  induction rest generalizing t with
  | nil => exact ⟨[], t, .nil, hrun, ht⟩
  | cons r rest ih =>
    have hprobe : answer env'.shown (.kill r.pid 0) .ok t.store =
        some (if t.store.os.alive r.pid then (0 : Int) else -1, t.store) := rfl
    have hfirst := @childStep_call env env' _ _ (.detectProbe r rest) _ _ _ _ hrun ht rfl hprobe
    dsimp only at hfirst
    by_cases halive : t.store.os.alive r.pid = true
    · rw [if_pos (if_pos halive)] at hfirst
      have hrun' := aborted_setThread_setStore hrun .sched ((Ctl.detectNext rest).code env) t.store
      obtain ⟨ls, u, hls, hu⟩ := ih hrun' (thread_setThread_setStore ht _ t.store)
      exact ⟨_, u, (Runs.single trivial hfirst).trans hls, hu⟩
    · -- the process is gone, and the query for its record fails
      rw [if_neg halive, if_neg (show ¬ (-1 : Int) = 0 by decide)] at hfirst
      have hthread := thread_setThread_setStore ht ((Ctl.detectLookup r rest).code env) t.store
      have hrun' := aborted_setThread_setStore hrun .sched ((Ctl.detectLookup r rest).code env) t.store
      have hlookup : answer env'.shown (.findOne (.pid r.pid)) .dbFail t.store = some (none, t.store) := rfl
      have hsecond := @childStep_call env env' _ _ (.detectLookup r rest) _ _ _ _ hrun' hthread rfl hlookup
      have hrun'' := aborted_setThread_setStore hrun' .sched ((Ctl.detectNext rest).code env) t.store
      obtain ⟨ls, u, hls, hu⟩ := ih hrun'' (thread_setThread_setStore hthread _ t.store)
      exact ⟨_, u, ((Runs.single trivial hfirst).trans (.single trivial hsecond)).trans hls, hu⟩

/-- **If `execl` returns, the child of a worker pops the event, and that of the scheduler begins a new pass.** -/
theorem child_acts {p : ProcessInfo} {after : Ctl} (hrun : t.aborted = false)
    (ht : t.thread τ = some ((Ctl.childExec p after).code env))
    (hτ : GoesOn τ t.queue after) :
    ∃ ls l u, Runs (childStep (service env') τ) (fun _ _ => True) t (ls ++ [l]) u ∧
      ∀ s : Sys (Act Int), s.actsAsService (service env') l = true := by
  have hexec : answer env'.shown (.execl (command p)) .execFail t.store = some ((-1 : Int), t.store) := rfl
  have hfirst := @childStep_call env env' _ _ (.childExec p after) _ _ _ _ hrun ht rfl hexec
  have hthread := thread_setThread_setStore ht (after.code env) t.store
  have hrun' := aborted_setThread_setStore hrun τ (after.code env) t.store
  obtain ⟨i, ev, q, rtn, rfl, hq, rfl⟩ | ⟨rest, rfl, rfl⟩ := hτ
  · obtain ⟨⟨ev', a⟩, hj, ha⟩ := Option.map_eq_some_iff.mp hthread
    obtain rfl : a = (Ctl.done rtn).code env := ha
    have hw := Sys.getElem?_of_job hj
    have hqueue : ((t.setThread (.worker i) ((Ctl.done rtn).code env)).setStore t.store).queue i = ev :: q :=
      (congrFun (Sys.queue_setThread (.worker i) _) i).trans hq
    rw [hqueue] at hw
    have hview : (service env').view ((Ctl.done rtn).code env) = .ret rtn := rfl
    have hpop := step_of_pop hrun' hw hview
    have hsecond : childStep (service env') (.worker i) (.own (.pop i)) _ = some _ :=
      (if_pos (decide_eq_true rfl)).trans hpop
    exact ⟨[.own (.call (.worker i) .execFail)], .own (.pop i), _,
      (Runs.single trivial hfirst).snoc trivial hsecond, fun _ => rfl⟩
  · obtain ⟨ls, u, hls, hu, hdone⟩ := @pass_ends env env' _ _ hrun' hthread
    have hs : u.sched = some (.ret 0) := hdone
    have hend : childStep (service env') .sched (.own .detectEnd) u = some { u with sched := none } := by
      simp [childStep, Label.ofThread, step, hu, stepRunning, hs, service, Prog.view]
    have hdetect : childStep (service env') .sched (.own .detect) { u with sched := none } =
        some { u with sched := some (service env').detect } := by
      simp [childStep, Label.ofThread, step, hu, stepRunning]
    have hall := (((Runs.single trivial hfirst).trans hls).snoc trivial hend).snoc trivial hdetect
    exact ⟨_, .own .detect, _, hall, fun _ => rfl⟩

/-- **A forked child never acts as the service, exactly if `execl` cannot return in it.** -/
theorem child_never_acts_iff {n : Int} {coll : List Doc} {os : Os} {ls : List Label} {param : ProcessInfo}
    {k : Int → Act Int} (h : Runs (step (service env)) (fun _ _ => True) (Sys.boot n coll os) ls s)
    (hrun : s.aborted = false) (hfork : s.thread τ = some (.call (.fork param) k)) (returns : Bool) :
    NeverActs (service env') τ returns (s.forkChild τ (k 0)) ↔ returns = false := by
  rw [← Sys.map_boot (Ctl.code env)] at h
  obtain ⟨v, rfl, hruns⟩ := runs_points h
  have hfits := fits_of_runs (fits_boot env n coll os) hruns
  rw [Sys.map_thread] at hfork
  obtain ⟨c, hc, hcode⟩ := Option.map_eq_some_iff.mp hfork
  obtain ⟨p, after, hk, hserves, hscans⟩ := fork_child hcode
  have hthread : (v.map (Ctl.code env)).thread τ = some (c.code env) := by rw [Sys.map_thread, hc]; rfl
  have hchild : ((v.map (Ctl.code env)).forkChild τ (k 0)).thread τ = some ((Ctl.childExec p after).code env) := by
    have hset : ((v.map (Ctl.code env)).setThread τ (k 0)).thread = _ := Sys.thread_setThread hthread
    rw [← hk]
    exact (congrFun hset τ).trans (Function.update_self ..)
  constructor
  · intro hnever
    cases returns with
    | false => rfl
    | true =>
      have hrun' : ((v.map (Ctl.code env)).forkChild τ (k 0)).aborted = false := by
        cases τ <;> exact hrun
      have hqueue : ((v.map (Ctl.code env)).forkChild τ (k 0)).queue = v.queue := by
        funext i
        exact (congrFun (Sys.queue_setThread τ _) i).trans (Sys.map_queue ..)
      have hτ : GoesOn τ ((v.map (Ctl.code env)).forkChild τ (k 0)).queue after := by
        rw [hqueue]
        exact goesOn_of_fits hfits hc hserves hscans
      obtain ⟨ls', l, u, hls, hacts⟩ := @child_acts env env' _ _ _ _ hrun' hchild hτ
      have hquiet := hnever _ u (hls.mono fun _ _ _ _ => rfl)
      obtain ⟨t, -, hl, -⟩ := hquiet.last
      exact absurd ((hacts t).symm.trans hl) nofun
  · rintro rfl ls' u hls
    have hat : AtExec τ ((v.map (Ctl.code env)).forkChild τ (k 0)) := ⟨_, _, hchild⟩
    have hexec : ∀ l : ChildLabel, (l.execReturns = true → false = true) → l.execReturns = false :=
      fun l hl => Bool.eq_false_iff.mpr fun h => nomatch hl h
    have hwait := hls.strengthen (AtExec τ) hat fun t l u ht hl hstep => (ht.childStep hstep (hexec l hl)).2
    refine hwait.mono_of_step ?_
    rintro t l u hstep ⟨ht, hl⟩
    obtain ⟨⟨st, rfl⟩, -⟩ := ht.childStep hstep (hexec l hl)
    rfl

end

/-! ### A child of a worker that has one event -/

/-- Worker `0` has taken the start of a stream and is about to fork. -/
def forkLabels : List Label := [.put (startEvent [1]), .front 0, .call (.worker 0) .ok]

def forkPoint : Sys (Act Int) :=
  (check (step (service sampleEnv)) (fun _ _ => True) forkLabels (Sys.boot 1 [] ⟨[], []⟩)).get (by decide)

theorem runs_forkPoint :
    Runs (step (service sampleEnv)) (fun _ _ => True) (Sys.boot 1 [] ⟨[], []⟩) forkLabels forkPoint :=
  runs_get _

/-- What is left of `spawn_process` when `fork` has returned. -/
def afterFork (pid : Int) : Act Int :=
  if pid < 0 then return ErrorCode.recErrorForkFailed
  else if 0 < pid then do
    let _ ← addProcessToCache sampleEnv { sampleInfo [1] with pid }
    return ErrorCode.errorOk
  else child sampleEnv (sampleInfo [1])

theorem thread_forkPoint : forkPoint.thread (.worker 0) = some (.call (.fork (sampleInfo [1])) afterFork) := rfl

theorem child_never_acts_iff_worker :
    NeverActs (service sampleEnv) (.worker 0) false (forkPoint.forkChild (.worker 0) (afterFork 0)) ↔ false = false :=
  child_never_acts_iff runs_forkPoint (by decide) thread_forkPoint false

/-- `execl` fails in the child, which then pops the event. -/
def childPops : List ChildLabel := [.own (.call (.worker 0) .execFail), .own (.pop 0)]

theorem child_pops :
    ¬ ∀ (env env' : Env) (n : Int) (coll : List Doc) (os : Os) (ls : List Label) (s : Sys (Act Int)) (τ : Tid)
      (param : ProcessInfo) (k : Int → Act Int), Runs (step (service env)) (fun _ _ => True) (Sys.boot n coll os) ls s →
      s.aborted = false → s.thread τ = some (.call (.fork param) k) →
      NeverActs (service env') τ true (s.forkChild τ (k 0)) := by
  intro h
  have hnever := h sampleEnv sampleEnv 1 [] ⟨[], []⟩ forkLabels forkPoint (.worker 0) _ afterFork runs_forkPoint
    (by decide) thread_forkPoint
  have hquiet := hnever childPops _ (runs_get (by decide))
  obtain ⟨t, -, hl, -⟩ := @Runs.last _ _ _ _ _ _ [_] _ hquiet
  cases hl

end PullStream
