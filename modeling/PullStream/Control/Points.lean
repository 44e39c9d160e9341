import PullStream.App.ServerBiz
/-!
# Control points

A thread of the service is represented in `App` by its remaining program. Here the places where a
program can stand between two calls are listed as the data type `Ctl`, each with the values the rest of
the function uses, and `Ctl.view` says which call is made there and where the answer leads. Invariants
are then case analyses over `Ctl`.

`Ctl.code` gives the program that remains at a control point, and `code_represents` says that the points
do exactly what the programs do. So the service and the machine over control points take the same steps
(`step_map`), and every run of the service is the image of a run over control points (`runs_points`).
-/

namespace PullStream

open ServerBiz ProcessCtl

inductive Ctl where
  | done (rtn : Int)
  | spawnQuery (p : ProcessInfo)
  | spawnFork (p : ProcessInfo)
  | spawnInsert (p : ProcessInfo)
  | removeQuery (p : ProcessInfo)
  | removeDelete (p : ProcessInfo)
  | removeKill (p : ProcessInfo)
  | reloadQuery (sid : Str)
  | reloadFork (p : ProcessInfo)
  | reloadUpdate (p : ProcessInfo)
  | detectFind
  | detectProbe (r : ProcessInfo) (rest : List ProcessInfo)
  | detectLookup (r : ProcessInfo) (rest : List ProcessInfo)
  | detectFork (p : ProcessInfo) (rest : List ProcessInfo)
  | detectUpdate (p : ProcessInfo) (rest : List ProcessInfo)
  | childExec (p : ProcessInfo) (after : Ctl)
  | asserting
  deriving DecidableEq, Repr

namespace Ctl

/-- The head of the loop of `process_alive_detect`. -/
def detectNext : List ProcessInfo → Ctl
  | [] => .done 0
  | r :: rest => .detectProbe r rest

def view (env : Env) : Ctl → View Call Reply Int Ctl
  | .done rtn => .ret rtn
  | .spawnQuery p => .call (.findOne (.sid (cStr p.sid))) fun found =>
      if found.isSome then .done ErrorCode.errorStreamExist else .spawnFork p
  | .spawnFork p => .call (.fork p) fun pid =>
      if pid < 0 then .done ErrorCode.recErrorForkFailed
      else if 0 < pid then .spawnInsert { p with pid }
      else .childExec p (.done env.noReturn)
  | .spawnInsert p => .call (.insert (processDoc env p)) fun _ => .done ErrorCode.errorOk
  | .removeQuery p => .call (.findOne (.sid (cStr p.sid))) fun found =>
      match found with
      | some item => .removeDelete (parser item env.newInfo).2
      | none => .done ErrorCode.recErrorStreamNotExist
  | .removeDelete p => .call (.remove (.sid (cStr p.sid))) fun _ => .removeKill p
  | .removeKill p => .call (.kill p.pid sigkill) fun _ => .done ErrorCode.errorOk
  | .reloadQuery sid => .call (.findOne (.sid (cStr sid))) fun found =>
      match found with
      | some item => .reloadFork (parser item env.newInfo).2
      | none => .done ErrorCode.recErrorStreamNotExist
  | .reloadFork p => .call (.fork p) fun pid =>
      if pid < 0 then .done ErrorCode.errorOk
      else if 0 < pid then .reloadUpdate { p with pid }
      else .childExec p (.done ErrorCode.errorOk)
  | .reloadUpdate p => .call (.update (.sid (cStr p.sid)) p.pid) fun _ => .done ErrorCode.errorOk
  | .detectFind => .call (.find .all) fun vec => detectNext (decodeAll vec env.newInfo)
  | .detectProbe r rest => .call (.kill r.pid 0) fun ret =>
      if ret = 0 then detectNext rest else .detectLookup r rest
  | .detectLookup r rest => .call (.findOne (.pid r.pid)) fun found =>
      match found with
      | some item => .detectFork (parser item env.newInfo).2 rest
      | none => detectNext rest
  | .detectFork p rest => .call (.fork p) fun pid =>
      if pid < 0 then detectNext rest
      else if 0 < pid then .detectUpdate { p with pid } rest
      else .childExec p (detectNext rest)
  | .detectUpdate p rest => .call (.update (.sid (cStr p.sid)) p.pid) fun _ => detectNext rest
  | .childExec p after => .call (.execl (command p)) fun _ => after
  | .asserting => .call .assertFail nofun

/-- Where a worker stands when it enters the `switch` with an event. -/
def start (ev : Event) : Ctl :=
  match ev.type with
  | .createProcess => .spawnQuery ev.process
  | .removeProcess => .removeQuery ev.process
  | .reloadProcess => .reloadQuery ev.process.sid
  | .terminateProcess => .asserting

/-! ### The programs that remain -/

/-- What is left of `process_alive_detect` when the loop still has `processes` to go through. -/
def detectCode (env : Env) (processes : List ProcessInfo) : Act Int := do
  detectLoop env processes
  return 0

def code (env : Env) : Ctl → Act Int
  | .done rtn => return rtn
  | .spawnQuery p => spawnProcess env p
  | .spawnFork p => do
      let pid ← invoke (.fork p)
      if pid < 0 then
        return ErrorCode.recErrorForkFailed
      else if 0 < pid then
        let _ ← addProcessToCache env { p with pid }
        return ErrorCode.errorOk
      else
        child env p
  | .spawnInsert p => do
      let _ ← addProcessToCache env p
      return ErrorCode.errorOk
  | .removeQuery p => removeProcess env p
  | .removeDelete p => do
      let _ ← removeProcessByStream p.sid
      let _ ← invoke (.kill p.pid sigkill)
      return ErrorCode.errorOk
  | .removeKill p => do
      let _ ← invoke (.kill p.pid sigkill)
      return ErrorCode.errorOk
  | .reloadQuery sid => processReload env sid
  | .reloadFork p => do
      let _ ← spawnProcessI env p
      return ErrorCode.errorOk
  | .reloadUpdate p => do
      let _ ← updateProcessInfo p
      return ErrorCode.errorOk
  | .detectFind => processAliveDetect env
  | .detectProbe r rest => detectCode env (r :: rest)
  | .detectLookup r rest => do
      let (found, info) ← isProcessExist (.pid r.pid) env.newInfo
      if found then
        let _ ← spawnProcessI env info
        detectCode env rest
      else
        detectCode env rest
  | .detectFork p rest => do
      let _ ← spawnProcessI env p
      detectCode env rest
  | .detectUpdate p rest => do
      let _ ← updateProcessInfo p
      detectCode env rest
  | .childExec p after => do
      let _ ← invoke (.execl (command p))
      code env after
  | .asserting => do
      let impossible ← invoke .assertFail
      nomatch impossible

theorem code_detectNext (env : Env) (processes : List ProcessInfo) :
    code env (detectNext processes) = detectCode env processes := by
  cases processes <;> rfl

theorem code_start (env : Env) (ev : Event) : code env (start ev) = ServerBiz.dispatch env ev := by
  unfold start ServerBiz.dispatch
  cases ev.type <;> rfl

theorem spawnProcessI_bind (env : Env) (p : ProcessInfo) (f : Int → Act Int) :
    spawnProcessI env p >>= f = Prog.call (.fork p) fun (pid : Int) =>
      if pid < 0 then f ErrorCode.recErrorForkFailed
      else if 0 < pid then updateProcessInfo { p with pid } >>= fun _ => f ErrorCode.errorOk
      else Prog.call (.execl (command p)) fun _ => f env.noReturn := by
  refine congrArg (Prog.call _) (funext fun (pid : Int) => ?_)
  show (if pid < 0 then _ else if 0 < pid then _ else _ : Act Int) >>= f = _
  split_ifs
  · rfl
  · exact Prog.assoc _ _ _
  · rfl

theorem detectCode_cons (env : Env) (r : ProcessInfo) (rest : List ProcessInfo) :
    detectCode env (r :: rest) = (do
      let exist ← checkSystemProcessExist r.pid
      if exist then detectCode env rest else code env (.detectLookup r rest)) := by
  unfold detectCode
  rw [detectLoop, Prog.assoc]
  refine congrArg (checkSystemProcessExist r.pid >>= ·) (funext fun exist => ?_)
  cases exist
  · refine (Prog.assoc _ _ _).trans ?_
    refine congrArg (isProcessExist (.pid r.pid) env.newInfo >>= ·) (funext fun (found, info) => ?_)
    cases found
    · rfl
    · exact Prog.assoc _ _ _
  · rfl

/-- **At every control point the remaining program makes the call of the point and goes on with the
program of the next point.** -/
theorem code_represents (env : Env) : Represents (view env) Prog.view (code env) := by
  intro c
  cases c with
  | done | childExec | removeKill => rfl
  | spawnQuery p | removeQuery p | reloadQuery sid =>
    refine congrArg (View.call _) (funext fun found => ?_)
    cases found <;> rfl
  | spawnFork p =>
    refine congrArg (View.call _) (funext fun pid => ?_)
    rw [apply_ite (code env), apply_ite (code env)]
    rfl
  | reloadFork p =>
    rw [code, spawnProcessI_bind]
    refine congrArg (View.call _) (funext fun pid => ?_)
    rw [apply_ite (code env), apply_ite (code env)]
    rfl
  | spawnInsert p | removeDelete p | reloadUpdate p =>
    refine congrArg (View.call _) (funext fun (done : Bool) => ?_)
    cases done <;> rfl
  | detectFind =>
    refine congrArg (View.call _) (funext fun vec => ?_)
    exact (code_detectNext env _).symm
  | detectProbe r rest =>
    rw [code, detectCode_cons]
    refine congrArg (View.call _) (funext fun (ret : Int) => ?_)
    rw [apply_ite (code env), code_detectNext]
    show (if decide (ret = 0) = true then _ else _ : Act Int) = _
    simp only [decide_eq_true_eq]
  | detectLookup r rest =>
    refine congrArg (View.call _) (funext fun found => ?_)
    cases found
    · exact (code_detectNext env rest).symm
    · rfl
  | detectFork p rest =>
    rw [code, spawnProcessI_bind]
    refine congrArg (View.call _) (funext fun pid => ?_)
    rw [apply_ite (code env), apply_ite (code env), code, code, code_detectNext]
    rfl
  | detectUpdate p rest =>
    refine congrArg (View.call _) (funext fun (done : Bool) => ?_)
    cases done <;> exact (code_detectNext env rest).symm
  | asserting =>
    refine congrArg (View.call _) (funext fun impossible => ?_)
    cases impossible

end Ctl

end PullStream
