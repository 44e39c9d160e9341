import PullStream.App.Startup
/-!
# The start of `pull` and of `pulld` (`main.cpp` of each)

`Pull.main` goes as far as the registration of the host, after which the service serves. `Pulld.main` has the loop
that watches over `pull`, with the number of rounds until a signal clears `is_running`. `Pull.startUp` and
`Pulld.startUp` are what is done when the paths are known, with the configuration file, which is `none` if it cannot
be opened.

Which addresses `mongoc_client_new` makes a client for, and for which it returns `NULL`, is up to libmongoc: `client`
says so. Every operation on the database begins with `MongoAdaptor::connect`, which asserts that there is a client.
-/

namespace PullStream

/-! ### What the programs share -/

/-- `write_pid_to_file`, where `err` reports an error, and `hasRunned` that the file is locked. -/
def writePid (err : Str → StartAct Unit) (hasRunned : StartAct Unit) (file : Str) : StartAct Unit := do
  let pid ← askStart .getpid
  let opened : Except Str Int ← askStart (.sys (.openFile file))
  match opened with
  | .error errno => do
    err (lit "wrtie pid : Open " ++ file ++ lit " Error:" ++ errno)
    exitWith 0
  | .ok fd => do
    let locked : Except Str Int ← askStart (.sys (.lockf fd))
    match locked with
    | .error errno => do
      err (lit "try lock file " ++ file ++ lit " failed: " ++ errno)
      hasRunned
      exitWith 0
    | .ok _ => do
      let written : Except Str Int ← askStart (.sys (.write fd (fmtD pid ++ lit "\n")))
      match written with
      | .error errno => do
        err (lit "wrtie pid failed: " ++ errno)
        exitWith 0
      | .ok _ => askStart (.printf (lit "[" ++ fmtD pid ++ lit "]+\n"))

/-- The end of `daemon`. -/
def redirect (err : Str → StartAct Unit) (failed : Int) : StartAct Int := do
  let opened : Except Str Int ← askStart (.sys (.openFile (lit "/dev/null")))
  match opened with
  | .error _ => do
    err (lit "open(\"/dev/null\") failed")
    pure failed
  | .ok fd => do
    let stdin : Except Str Int ← askStart (.sys (.dup2 fd 0))
    match stdin with
    | .error _ => do
      err (lit "dup2(STDIN) failed")
      pure failed
    | .ok _ => do
      let stdout : Except Str Int ← askStart (.sys (.dup2 fd 1))
      match stdout with
      | .error _ => do
        err (lit "dup2(STDOUT) failed")
        pure failed
      | .ok _ =>
        if 2 < fd then do
          let closed : Except Str Int ← askStart (.sys (.close fd))
          match closed with
          | .error _ => do
            err (lit "close() failed")
            pure failed
          | .ok _ => pure 0
        else pure 0

/-- What the child does in `daemon`, where `tell` is done with its pid. -/
def detach (err : Str → StartAct Unit) (write : StartAct Unit) (tell : Int → StartAct Unit) (failed : Int) :
    StartAct Int := do
  write
  let pid ← askStart .getpid
  tell pid
  let session : Except Str Int ← askStart (.sys .setsid)
  match session with
  | .error _ => do
    err (lit "setsid() failed")
    pure failed
  | .ok _ => redirect err failed

/-- `daemon`. The parent exits. -/
def daemon (err : Str → StartAct Unit) (write : StartAct Unit) (tell : Int → StartAct Unit) (failed : Int) :
    StartAct Int := do
  let forked : Except Str Int ← askStart (.sys .fork)
  match forked with
  | .error _ => do
    err (lit "fork() failed")
    pure failed
  | .ok ppid => if ppid ≠ 0 then exitWith 0 else detach err write tell failed

/-- `get_local_ip`, and what is then in `local_ip`. -/
def getLocalIp (err : Str → StartAct Unit) (ethInf : Str) : StartAct (Int × Str) := do
  let sd : Except Str Int ← askStart (.sys .socket)
  match sd with
  | .error errno => do
    err (lit "socket error: " ++ errno ++ lit "\n")
    pure (-1, [])
  | .ok sd => do
    let addr : Except Str Str ← askStart (.ioctl sd (ethInf.take 15))
    match addr with
    | .error errno => do
      err (lit "ioctl error: " ++ errno ++ lit "\n")
      let _ ← askStart (.sys (.close sd))
      pure (-1, [])
    | .ok addr => do
      let _ ← askStart (.sys (.close sd))
      pure (0, snprintf 16 addr)

/-- `MongoAdaptor::connect`, which has the same text in both programs. -/
def MongoAdaptor.connect (client : Str → Bool) (addr : Str) : StartAct Unit :=
  if client (cStr addr) then pure () else .call .abort nofun

/-- A call of the functions on the `host` collection, at the database at `mdb`. -/
def MongoAdaptor.hostCall (client : Str → Bool) (mdb : Str) : (c : HostCall) → StartAct (HostReply c)
  | .setHost host port => askStart (.host mdb (.setHost host port))
  | c => do
    connect client mdb
    askStart (.host mdb c)

/-- A call of the probe. -/
def MongoAdaptor.probeCall (client : Str → Bool) : (c : ProbeCall) → StartAct (ProbeReply c)
  | .store mdb c => do
    connect client mdb
    askStart (.probe (.store mdb c))
  | c => askStart (.probe c)

/-- What `GetStr` returns is `m_szKey`, which is no null pointer. -/
def IniReader.getStrPointer (mAttr cAttr : Str) (r : IniReader) : Option Str × IniReader :=
  ((r.getStr mAttr cAttr).1, (r.getStr mAttr cAttr).2)

/-- `is_daemon` -/
def isDaemon : Option Str → Bool
  | none => false
  | some dae => if dae = lit "on" then true else if dae = lit "off" then false else false

/-! ### `pull` -/

namespace CUtils

def logError (text : Str) : StartAct Unit := askStart (.log .error text)

/-- `CUtils::write_pid_to_file` -/
def writePidToFile (file : Str) : StartAct Unit :=
  writePid logError (logError (lit "instance has runned\n")) file

/-- `CUtils::daemon` -/
def daemon (pidPath : Str) : StartAct Int :=
  PullStream.daemon logError (writePidToFile pidPath) (fun _ => pure ()) ErrorCode.recErrorInternal

/-- `CUtils::get_local_ip` -/
def getLocalIp (ethInf : Str) : StartAct (Int × Str) := do
  askStart (.log .info (lit "eth_inf: " ++ ethInf))
  PullStream.getLocalIp logError ethInf

end CUtils

/-- The loop of `create_worker_thread`, from the thread `i` on. -/
def ServerBiz.createWorkerThread : Nat → Nat → StartAct Unit
  | 0, _ => pure ()
  | n + 1, i => do
    let created : Except Str Int ← askStart (.sys (.createThread i))
    match created with
    | .error _ => do
      askStart (.log .error (lit "create thread " ++ fmtD i ++ lit " error"))
      exitWith 1
    | .ok _ => createWorkerThread n (i + 1)

/-- `ServerBiz::init` -/
def ServerBiz.init (workerNum : Int32) : StartAct Unit := ServerBiz.createWorkerThread workerNum.toInt.toNat 0

/-- `CRestApi::init` -/
def CRestApi.init (client : Str → Bool) (ini : IniReader) (host : Str) : StartAct Unit := do
  askStart .mongocInit
  let (port, ini) := ini.getInt (lit "system") (lit "listen")
  if port = 0 then do
    askStart (.log .error (lit "listen port unspecified"))
    exitWith 0
  else
    match (ini.getStrPointer (lit "mongodb") (lit "address")).1 with
    | none => do
      askStart (.log .error (lit "mongdb address unspecified"))
      exitWith 0
    | some address => do
      askStart (.log .info (lit "get mongo address " ++ address))
      askStart (.log .info (lit "host: " ++ host ++ lit " register"))
      let registered ← (ServerBiz.hostRegister host port.toInt).subst (MongoAdaptor.hostCall client address)
      if registered then pure ()
      else do
        askStart (.log .error (lit "duplicate host register"))
        exitWith 0

namespace Pull

/-- What is done if the configuration says `daemon=on`. -/
def becomeDaemon (on : Bool) (pidPath : Str) : StartAct Unit :=
  if on then do
    let ret ← CUtils.daemon pidPath
    if ret ≠ ErrorCode.errorOk then do
      askStart (.log .trace (lit "daemon error"))
      exitWith 0
    else pure ()
  else pure ()

/-- `main` from the `Load` on. -/
def startUp (client : Str → Bool) (paths : Paths) (file : Option Str) : StartAct Unit :=
  match IniReader.new.load file with
  | (none, _) => .call .terminate nofun
  | (some _, ini) => do
    let (dae, ini) := ini.getStrPointer (lit "system") (lit "daemon")
    becomeDaemon (isDaemon dae) paths.pidPath
    askStart (.logInit paths.logPath (isDaemon dae))
    askStart (.log .trace (lit "wanghuan log test"))
    let (netType, ini) := ini.getStrPointer (lit "system") (lit "net_type")
    match netType with
    | none => do
      askStart (.printf (lit "net_type unspecified\n"))
      exitWith 0
    | some netType => do
      let (_, localIp) ← CUtils.getLocalIp netType
      let (workerNum, ini) := ini.getInt (lit "system") (lit "worker")
      if workerNum = 0 then do
        askStart (.printf (lit "worker_num unspecified\n"))
        exitWith 0
      else do
        ServerBiz.init workerNum
        CRestApi.init client ini localIp

/-- `main`, with the files that there are. -/
def main (client : Str → Bool) (argv0 : Str) (files : Str → Option Str) : StartAct Unit := do
  let paths ← Pull.paths argv0
  startUp client paths (files paths.confPath)

end Pull

/-! ### `pulld` -/

namespace Pulld

/-- `g_psyslog->prt`, when `g_psyslog` has been set. -/
def prt (lvl : LogType) (text : Str) : StartAct Unit := askStart (.psyslog (.prt lvl text))

/-- `write_pid_to_file` -/
def writePidToFile (file : Str) : StartAct Unit :=
  writePid (prt .crit) (askStart (.printf (lit "record has runned\n"))) file

/-- `daemon` -/
def daemon (pidPath : Str) : StartAct Int :=
  PullStream.daemon (prt .crit) (writePidToFile pidPath) (fun pid => prt .crit (lit "daemon pid = " ++ fmtD pid)) (-1)

/-- `get_local_ip` -/
def getLocalIp (ethInf : Str) : StartAct (Int × Str) :=
  PullStream.getLocalIp (fun text => askStart (.printf text)) ethInf

/-- What is done if the configuration says `daemon=on`, and whether to go on. -/
def becomeDaemon (on : Bool) (pidPath : Str) : StartAct Bool :=
  if on then do
    let ret ← daemon pidPath
    if ret ≠ 0 then do
      prt .info (lit "daemon error")
      pure false
    else pure true
  else pure true

/-- The loop of `main`. -/
def watch (client : Str → Bool) (recBinDir recPidDir localIp mongoAddr : Str) : Nat → StartAct Unit
  | 0 => pure ()
  | n + 1 => do
    let alive ← (Probe.checkProcessAlive recPidDir localIp mongoAddr).subst (MongoAdaptor.probeCall client)
    if alive then do
      askStart (.sleep 5)
      watch client recBinDir recPidDir localIp mongoAddr n
    else do
      prt .info (lit "run bin dir: " ++ recBinDir)
      askStart (.system recBinDir)
      askStart (.sleep 5)
      watch client recBinDir recPidDir localIp mongoAddr n

/-- `main` from `new CLog` on. -/
def work (client : Str → Bool) (paths : Paths) (on : Bool) (recBinDir recPidDir netType mongoAddr : Str)
    (rounds : Nat) :
    StartAct Unit := do
  askStart (.psyslog (.setLogTank (if on then lit "file" else lit "console")))
  askStart (.psyslog (.setLogLevel .info))
  askStart (.psyslog (.setLogOutByTime (-1)))
  askStart (.psyslog (.init paths.logPath (lit "error")))
  if ← becomeDaemon on paths.pidPath then do
    let (_, localIp) ← getLocalIp netType
    watch client recBinDir recPidDir localIp mongoAddr rounds
  else pure ()

/-- `main` from the `Load` on. `rec_log` stands for `g_psyslog->prt`, and `g_psyslog` is null until `work`. -/
def startUp (client : Str → Bool) (paths : Paths) (file : Option Str) (rounds : Nat) : StartAct Unit :=
  match IniReader.new.load file with
  | (none, _) => .call .terminate nofun
  | (some _, ini) => do
    let (dae, ini) := ini.getStrPointer (lit "system") (lit "daemon")
    let (childBinDir, ini) := ini.getStrPointer (lit "child") (lit "bin_dir")
    match childBinDir with
    | none => do
      askStart (.printf (lit "child_bin_dir unspecified\n"))
      exitWith 0
    | some childBinDir =>
      let recBinDir := snprintf 1024 (childBinDir ++ lit "sbin/pull")
      let recPidDir := snprintf 1024 (childBinDir ++ lit "log/pid")
      let (netType, ini) := ini.getStr (lit "system") (lit "net_type")
      if netType = [] then do
        askStart (.printf (lit "net_type unspacified\n"))
        exitWith 0
      else
        let (mongoAddr, _) := ini.getStr (lit "mongodb") (lit "address")
        if mongoAddr = [] then undefined
        else work client paths (isDaemon dae) recBinDir recPidDir netType mongoAddr rounds

/-- `main`. -/
def main (client : Str → Bool) (argv0 : Str) (resolved : Option Str) (files : Str → Option Str) (rounds : Nat) :
    StartAct Unit := do
  askStart .mongocInit
  let paths ← Pulld.paths argv0 resolved
  startUp client paths (files paths.confPath) rounds

end Pulld

end PullStream
