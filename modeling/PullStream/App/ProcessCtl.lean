import PullStream.App.ProcessStore
/-!
# Starting, reloading and stopping a stream (`app/processCommonApi.cpp`)

Each function is a program over `Call`, so that a function running alone and a function interleaved with
others have one text. After a `fork` the program goes on in the parent with the pid of the child, or with
a negative number, and in the child with `0`.
-/

namespace PullStream.ProcessCtl

open ServerBiz

def ffmpegParamMaxLen : Nat := 2048

/-- The command of a stream, as `snprintf` leaves it in the buffer: given the size `2047` it writes at
most `2046` characters and the NUL. -/
def command (param : ProcessInfo) : Str :=
  (lit "ffmpeg -v quiet -i " ++ cStr param.srcUrl ++ lit " -c copy -f flv " ++ cStr param.destUrl).take
    (ffmpegParamMaxLen - 1 - 1)

/-- The branch of the child, common to both spawning functions. It comes back only when `execl` fails,
and the function then ends without a `return`. -/
def child (env : Env) (param : ProcessInfo) : Act Int := do
  let _ ← invoke (.execl (command param))
  return env.noReturn

def spawnProcess (env : Env) (param : ProcessInfo) : Act Int := do
  let (found, _) ← isProcessExist (.sid (cStr param.sid)) env.newInfo
  if found then
    return ErrorCode.errorStreamExist
  else
    let pid ← invoke (.fork param)
    if pid < 0 then
      return ErrorCode.recErrorForkFailed
    else if 0 < pid then
      let _ ← addProcessToCache env { param with pid }
      return ErrorCode.errorOk
    else
      child env param

def spawnProcessI (env : Env) (param : ProcessInfo) : Act Int := do
  let pid ← invoke (.fork param)
  if pid < 0 then
    return ErrorCode.recErrorForkFailed
  else if 0 < pid then
    let _ ← updateProcessInfo { param with pid }
    return ErrorCode.errorOk
  else
    child env param

def processReload (env : Env) (sid : Str) : Act Int := do
  let (found, info) ← isProcessExist (.sid (cStr sid)) env.newInfo
  if found then
    let _ ← spawnProcessI env info
    return ErrorCode.errorOk
  else
    return ErrorCode.recErrorStreamNotExist

def checkSystemProcessExist (pid : Int) : Act Bool := do
  let ret ← invoke (.kill pid 0)
  return ret = 0

def removeProcess (env : Env) (info : ProcessInfo) : Act Int := do
  match ← getProcessInfo env info.sid with
  | none => return ErrorCode.recErrorStreamNotExist
  | some p =>
    let _ ← removeProcessByStream p.sid
    let _ ← invoke (.kill p.pid sigkill)
    return ErrorCode.errorOk

def terminateProcess (info : ProcessInfo) : Act Int := do
  let _ ← invoke (.kill info.pid sigkill)
  return ErrorCode.errorOk

end PullStream.ProcessCtl
