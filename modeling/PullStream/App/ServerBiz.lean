import PullStream.App.ProcessCtl
import PullStream.Base.Run
/-!
# The running service (`app/serverBiz.cpp`)

A host runs the workers created by `create_worker_thread`, each with its own queue, and the scheduler.
`put_data` deals events out to the queues in turn. A worker looks at the front of its queue, runs the
function for it, and pops the event when the function has returned. The scheduler runs
`process_alive_detect` again and again.

`Sys T` is the state of a host together with the collection; a thread that is inside a function is
represented by a value of `T`, which `Threads T` explains. `service env` represents threads by their
remaining programs: this is the service itself. `step` is its transition function. A label says which
party moves, and what the surroundings choose when the move is a call.

The event counts as accepted by `put_data` once it is in a queue and as finished once it is popped; both
are recorded, in order, in the trace variables `accepted` and `finished`.
-/

namespace PullStream

namespace ServerBiz

open ProcessCtl

/-- The loop of `process_alive_detect` over the records read before it. -/
def detectLoop (env : Env) : List ProcessInfo → Act Unit
  | [] => return ()
  | r :: processes => do
    if ← checkSystemProcessExist r.pid then
      detectLoop env processes
    else
      let (found, info) ← isProcessExist (.pid r.pid) env.newInfo
      if found then
        let _ ← spawnProcessI env info
        detectLoop env processes
      else
        detectLoop env processes

def processAliveDetect (env : Env) : Act Int := do
  let (ret, processes) ← findAllProcess env
  detectLoop env processes
  return ret

/-- The `switch` of `worker_loop`. `EV_TERMINATE_PROCESS` has no case: it runs into `default`. -/
def dispatch (env : Env) (ev : Event) : Act Int :=
  match ev.type with
  | .createProcess => spawnProcess env ev.process
  | .removeProcess => removeProcess env ev.process
  | .reloadProcess => processReload env ev.process.sid
  | .terminateProcess => do
    let impossible ← invoke .assertFail
    nomatch impossible

end ServerBiz

/-! ### State -/

/-- What a representation of threads has to supply: the next call of a thread, the thread that starts on
an event, and the thread of a scheduler pass; and what stored strings look like to them. -/
structure Threads (T : Type) where
  view : T → View Call Reply Int T
  dispatch : Event → T
  detect : T
  shown : String → Str → Str

/-- Threads represented by their remaining programs. -/
def service (env : Env) : Threads (Act Int) where
  view := Prog.view
  dispatch := ServerBiz.dispatch env
  detect := ServerBiz.processAliveDetect env
  shown := env.shown

/-- A worker's queue and, while it is inside the `switch`, the event taken and the thread. -/
structure WorkerContext (T : Type) where
  queue : List Event
  job : Option (Event × T)

/-- An event that was popped: by which worker, and what its function returned. -/
structure Done where
  worker : Nat
  ev : Event
  rtn : Int
  deriving DecidableEq, Repr

structure Host (T : Type) where
  os : Os
  workerList : List (WorkerContext T)
  workerIndex : Int
  workerMax : Int
  sched : Option T
  aborted : Bool
  accepted : List Event
  finished : List Done

structure Sys (T : Type) extends Host T where
  coll : List Doc

/-- A thread of a host. -/
inductive Tid where
  | worker (i : Nat)
  | sched
  deriving DecidableEq, Repr

/-- What can happen next. `die` and `appear` are not the service's doing: a process ends by itself, and
a process unrelated to the service starts. -/
inductive Label where
  | put (ev : Event)
  | front (i : Nat)
  | call (τ : Tid) (ch : Choice)
  | pop (i : Nat)
  | abort (i : Nat)
  | detect
  | detectEnd
  | die (p : Int)
  | appear (p : Int)
  deriving DecidableEq, Repr

section

variable {T : Type}

/-- `ServerBiz::init` on a collection and a process table that may hold anything. -/
def Sys.boot (workerNum : Int) (coll : List Doc) (os : Os) : Sys T where
  os := os
  workerList := List.replicate workerNum.toNat ⟨[], none⟩
  workerIndex := 0
  workerMax := workerNum
  sched := none
  aborted := false
  accepted := []
  finished := []
  coll := coll

namespace Sys

/-- The event worker `i` is busy with, and its thread. -/
def job (s : Sys T) (i : Nat) : Option (Event × T) := s.workerList[i]?.bind (·.job)

def queue (s : Sys T) (i : Nat) : List Event := (s.workerList[i]?.map (·.queue)).getD []

def thread (s : Sys T) : Tid → Option T
  | .worker i => (s.job i).map (·.2)
  | .sched => s.sched

/-- The event that a thread is busy with, `none` for the scheduler. -/
def taken (s : Sys T) : Tid → Option Event
  | .worker i => (s.job i).map (·.1)
  | .sched => none

def store (s : Sys T) : Store := ⟨s.coll, s.os⟩

def setStore (s : Sys T) (st : Store) : Sys T := { s with coll := st.coll, os := st.os }

def setWorker (s : Sys T) (i : Nat) (w : WorkerContext T) : Sys T :=
  { s with workerList := s.workerList.set i w }

/-- The state after a thread has moved on to `t`. -/
def setThread (s : Sys T) (τ : Tid) (t : T) : Sys T :=
  match τ with
  | .worker i =>
    { s with workerList := s.workerList.modify i fun w => { w with job := w.job.map fun j => (j.1, t) } }
  | .sched => { s with sched := some t }

end Sys

/-- `put_data`. `none` when `worker_index` is not an index of `worker_list`. -/
def putData (ev : Event) (s : Sys T) : Option (Sys T) :=
  if 0 ≤ s.workerIndex then
    match s.workerList[s.workerIndex.toNat]? with
    | none => none
    | some w =>
      some { s.setWorker s.workerIndex.toNat { w with queue := w.queue ++ [ev] } with
        workerIndex := (s.workerIndex + 1).tmod s.workerMax
        accepted := s.accepted ++ [ev] }
  else none

/-- One step of a service that has not aborted. -/
def stepRunning (I : Threads T) (l : Label) (s : Sys T) : Option (Sys T) :=
  match l with
  | .put ev => putData ev s
  | .front i =>
    match s.workerList[i]? with
    | some ⟨ev :: q, none⟩ => some (s.setWorker i ⟨ev :: q, some (ev, I.dispatch ev)⟩)
    | _ => none
  | .call τ ch =>
    match s.thread τ with
    | none => none
    | some t =>
      match I.view t with
      | .ret _ => none
      | .call c k => (answer I.shown c ch s.store).map fun x => (s.setThread τ (k x.1)).setStore x.2
  | .pop i =>
    match s.workerList[i]? with
    | some ⟨_ :: q, some (ev, t)⟩ =>
      match I.view t with
      | .ret rtn => some { s.setWorker i ⟨q, none⟩ with finished := s.finished ++ [⟨i, ev, rtn⟩] }
      | .call _ _ => none
    | _ => none
  | .abort i =>
    match s.job i with
    | some (_, t) =>
      match (I.view t).call? with
      | some .assertFail => some { s with aborted := true }
      | _ => none
    | none => none
  | .detect =>
    match s.sched with
    | none => some { s with sched := some I.detect }
    | some _ => none
  | .detectEnd =>
    match s.sched with
    | none => none
    | some t =>
      match I.view t with
      | .ret _ => some { s with sched := none }
      | .call _ _ => none
  | .die _ | .appear _ => none

/-- One step. After a failed assertion the service does nothing, but processes still come and go. -/
def step (I : Threads T) (l : Label) (s : Sys T) : Option (Sys T) :=
  match l with
  | .die p => if s.os.alive p then some { s with os := s.os.drop p } else none
  | .appear p => if s.os.alive p then none else some { s with os := s.os.add ⟨p, none⟩ }
  | l => if s.aborted then none else stepRunning I l s

/-- The call thread `τ` makes next, if it is inside a function that has not returned. -/
def Sys.next (I : Threads T) (s : Sys T) (τ : Tid) : Option Call :=
  (s.thread τ).bind fun t => (I.view t).call?

end

/-! ### Data for concrete runs -/

def sampleEnv : Env := ⟨1, 0, 0, 0, libShown⟩

def sampleInfo (sid : Str) : ProcessInfo := { sampleEnv.newInfo with sid }

def sampleDoc (sid : Str) (pid : Int) : Doc := { sampleInfo sid with pid }

def startEvent (sid : Str) : Event := ⟨sampleInfo sid, .createProcess⟩

def stopEvent (sid : Str) : Event := ⟨sampleInfo sid, .removeProcess⟩

def reloadEvent (sid : Str) : Event := ⟨sampleInfo sid, .reloadProcess⟩

/-- Worker `i` starts a stream with process `p`, from taking the event to popping it. -/
def startLabels (i : Nat) (p : Int) : List Label :=
  [.front i, .call (.worker i) .ok, .call (.worker i) (.pid p), .call (.worker i) .ok, .pop i]

/-- Worker `i` stops a stream that has a record. -/
def stopLabels (i : Nat) : List Label :=
  [.front i, .call (.worker i) .ok, .call (.worker i) .ok, .call (.worker i) .ok, .pop i]

end PullStream
