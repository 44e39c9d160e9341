import PullStream.Control.Points
/-!
# The service and the machine over control points take the same steps

`Sys.map f` replaces the representation of every thread of a state. When `f` carries one way of
representing threads to another (`Threads.Hom`), a step of the mapped state is the mapped step
(`step_map`), so the runs of the service are the images of runs over control points (`runs_points`).
Everything outside the threads is the same in both (the simp lemmas on `Sys.map`).
-/

namespace PullStream

open Transition

variable {T T' : Type}

/-- `f` carries the threads of `I` to threads of `I'` that do the same. -/
structure Threads.Hom (I : Threads T) (I' : Threads T') (f : T → T') : Prop where
  view : Represents I.view I'.view f
  dispatch : ∀ ev, f (I.dispatch ev) = I'.dispatch ev
  detect : f I.detect = I'.detect
  shown : I'.shown = I.shown

theorem Threads.Hom.call? {I : Threads T} {I' : Threads T'} {f : T → T'} (h : I.Hom I' f) (t : T) :
    (I'.view (f t)).call? = (I.view t).call? := by
  rw [h.view t, View.call?_map]

def WorkerContext.map (f : T → T') (w : WorkerContext T) : WorkerContext T' :=
  ⟨w.queue, w.job.map fun j => (j.1, f j.2)⟩

namespace Sys

def map (f : T → T') (s : Sys T) : Sys T' where
  os := s.os
  workerList := s.workerList.map (WorkerContext.map f)
  workerIndex := s.workerIndex
  workerMax := s.workerMax
  sched := s.sched.map f
  aborted := s.aborted
  accepted := s.accepted
  finished := s.finished
  coll := s.coll

section

variable (f : T → T') (s : Sys T)

@[simp] theorem map_os : (s.map f).os = s.os := rfl
@[simp] theorem map_coll : (s.map f).coll = s.coll := rfl
@[simp] theorem map_sched : (s.map f).sched = s.sched.map f := rfl

@[simp] theorem map_accepted : (s.map f).accepted = s.accepted := rfl
@[simp] theorem map_finished : (s.map f).finished = s.finished := rfl
@[simp] theorem map_store : (s.map f).store = s.store := rfl

@[simp] theorem map_job (i : Nat) : (s.map f).job i = (s.job i).map fun j => (j.1, f j.2) := by
  simp only [job, map, List.getElem?_map]
  cases s.workerList[i]? <;> rfl

@[simp] theorem map_queue (i : Nat) : (s.map f).queue i = s.queue i := by
  simp only [queue, map, List.getElem?_map]
  cases s.workerList[i]? <;> rfl

@[simp] theorem map_thread (τ : Tid) : (s.map f).thread τ = (s.thread τ).map f := by
  cases τ with
  | worker i => simp only [thread, map_job, Option.map_map]; rfl
  | sched => rfl

theorem map_taken (τ : Tid) : (s.map f).taken τ = s.taken τ := by
  cases τ with
  | worker i => simp only [taken, map_job, Option.map_map]; rfl
  | sched => rfl

theorem map_setWorker (i : Nat) (w : WorkerContext T) :
    (s.map f).setWorker i (w.map f) = (s.setWorker i w).map f := by
  simp [setWorker, map, List.map_set]

theorem map_setThread (τ : Tid) (t : T) :
    (s.map f).setThread τ (f t) = (s.setThread τ t).map f := by
  cases τ with
  | worker i =>
    simp only [setThread, map, Sys.mk.injEq, Host.mk.injEq, true_and, and_true]
    refine List.ext_getElem? fun j => ?_
    simp only [List.getElem?_modify, List.getElem?_map]
    rcases s.workerList[j]? with _ | ⟨q, job⟩
    · rfl
    · by_cases h : i = j
      · cases job <;> simp [h, WorkerContext.map]
      · simp [h]
  | sched => rfl

@[simp] theorem map_boot (n : Int) (coll : List Doc) (os : Os) :
    (boot n coll os : Sys T).map f = boot n coll os := by
  simp [boot, map, WorkerContext.map]

end

variable {I : Threads T} {I' : Threads T'} {f : T → T'}

theorem next_map (h : Represents I.view I'.view f) (s : Sys T) (τ : Tid) :
    (s.map f).next I' τ = s.next I τ := by
  rw [next, map_thread, next]
  cases s.thread τ with
  | none => rfl
  | some t => simp [h t]

end Sys

theorem putData_map (f : T → T') (ev : Event) (s : Sys T) :
    putData ev (s.map f) = (putData ev s).map (Sys.map f) := by
  unfold putData
  show (if 0 ≤ s.workerIndex then _ else _) = _
  split_ifs
  · have hget : (s.map f).workerList[(s.map f).workerIndex.toNat]? =
        s.workerList[s.workerIndex.toNat]?.map (WorkerContext.map f) := List.getElem?_map
    rw [hget]
    cases s.workerList[s.workerIndex.toNat]? with
    | none => rfl
    | some w =>
      show some _ = some _
      congr 1
      exact congrArg (fun u : Sys T' => { u with
        workerIndex := (s.workerIndex + 1).tmod s.workerMax, accepted := s.accepted ++ [ev] })
        (Sys.map_setWorker f s _ { w with queue := w.queue ++ [ev] })
  · rfl

theorem getElem?_map_workerList (f : T → T') (s : Sys T) (i : Nat) :
    (s.map f).workerList[i]? = s.workerList[i]?.map (WorkerContext.map f) :=
  List.getElem?_map

theorem stepRunning_map {I : Threads T} {I' : Threads T'} {f : T → T'} (h : I.Hom I' f) (l : Label)
    (s : Sys T) : stepRunning I' l (s.map f) = (stepRunning I l s).map (Sys.map f) := by
  unfold stepRunning
  cases l with
  | put ev => exact putData_map f ev s
  | front i =>
    dsimp only
    rw [getElem?_map_workerList]
    rcases s.workerList[i]? with _ | ⟨_ | ⟨ev, q⟩, _ | j⟩
    · rfl
    · rfl
    · rfl
    · show some _ = some _
      rw [← Sys.map_setWorker, ← h.dispatch]
      rfl
    · rfl
  | call τ ch =>
    dsimp only
    rw [Sys.map_thread]
    cases s.thread τ with
    | none => rfl
    | some t =>
      simp only [Option.map_some, h.view t]
      cases I.view t with
      | ret rtn => simp [View.map]
      | call c k =>
        simp only [View.map, Sys.map_store, Option.map_map, h.shown]
        refine congrFun (congrArg Option.map (funext fun x => ?_)) _
        rw [Sys.map_setThread]
        rfl
  | pop i =>
    dsimp only
    rw [getElem?_map_workerList]
    rcases s.workerList[i]? with _ | ⟨_ | ⟨_, q⟩, _ | ⟨ev, t⟩⟩
    · rfl
    · rfl
    · rfl
    · rfl
    · simp only [Option.map_some, WorkerContext.map, h.view t]
      cases I.view t with
      | ret rtn =>
        simp only [View.map, Option.map_some]
        congr 1
        exact congrArg (fun u : Sys T' => { u with finished := s.finished ++ [Done.mk i ev rtn] })
          (Sys.map_setWorker f s i ⟨q, none⟩)
      | call c k => simp [View.map]
  | abort i =>
    dsimp only
    rw [Sys.map_job]
    rcases s.job i with _ | ⟨ev, t⟩
    · rfl
    · simp only [Option.map_some, h.view t, View.call?_map]
      rcases (I.view t).call? with _ | c
      · rfl
      · cases c <;> rfl
  | detect =>
    dsimp only
    rw [Sys.map_sched]
    cases s.sched with
    | none => rw [← h.detect]; rfl
    | some t => rfl
  | detectEnd =>
    dsimp only
    rw [Sys.map_sched]
    cases s.sched with
    | none => rfl
    | some t =>
      simp only [Option.map_some, h.view t]
      cases I.view t with
      | ret rtn => rfl
      | call c k => rfl
  | die p | appear p => rfl

/-- **A step of the mapped state is the mapped step.** -/
theorem step_map {I : Threads T} {I' : Threads T'} {f : T → T'} (h : I.Hom I' f) (l : Label)
    (s : Sys T) : step I' l (s.map f) = (step I l s).map (Sys.map f) := by
  cases l with
  | die p =>
    show (if s.os.alive p then _ else none) = Option.map _ (if s.os.alive p then _ else none)
    cases s.os.alive p <;> rfl
  | appear p =>
    show (if s.os.alive p then none else _) = Option.map _ (if s.os.alive p then none else _)
    cases s.os.alive p <;> rfl
  | put _ | front _ | call _ _ | pop _ | abort _ | detect | detectEnd =>
    show (if s.aborted then none else _) = Option.map _ (if s.aborted then none else _)
    cases s.aborted
    · rw [if_neg Bool.false_ne_true, if_neg Bool.false_ne_true]
      exact stepRunning_map h _ s
    · rfl

/-! ### Runs of the service -/

/-- Threads represented by control points. -/
def points (env : Env) : Threads Ctl where
  view := Ctl.view env
  dispatch := Ctl.start
  detect := .detectFind
  shown := env.shown

theorem points_hom (env : Env) : (points env).Hom (service env) (Ctl.code env) where
  view := Ctl.code_represents env
  dispatch := Ctl.code_start env
  detect := rfl
  shown := rfl

/-- **Every run of the service is the image of a run over control points.** -/
theorem runs_points {env : Env} {ok : Sys (Act Int) → Label → Prop} {a : Sys Ctl} {ls : List Label}
    {u : Sys (Act Int)} (h : Runs (step (service env)) ok (a.map (Ctl.code env)) ls u) :
    ∃ b : Sys Ctl, b.map (Ctl.code env) = u ∧
      Runs (step (points env)) (fun t l => ok (t.map (Ctl.code env)) l) a ls b :=
  h.lift _ (step_map (points_hom env))

end PullStream
