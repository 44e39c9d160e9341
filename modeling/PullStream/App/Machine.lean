import PullStream.App.HostStore
/-!
# A machine with `pulld` and instances of `pull`

`pulld` checks again and again whether a `pull` runs on its machine, and launches one if not. It takes a
`pull` to be running when it cannot lock the pid file of `pull`; if it can, it unlocks the file, removes
the record of the host if there is one, and runs `pull`. An instance of `pull` locks the file only when it
is configured as a daemon. Instances may also be started by hand.

`Machine` is the state of both programs on one machine and of the `host` collection, and `machineStep` its
transition function: a label says which process takes its next step, and `ok` whether an `open`, a `fork`
or a `bind` made in it succeeds. A file lock excludes other processes and is released when the descriptor
is closed or the process ends. The driver makes a client for the address, so that the assertion of `connect` holds, and
database calls succeed.
-/

namespace PullStream

open ServerBiz

/-- What the configuration files give: the `daemon` setting of `pull`, and the host and port of the
service. -/
structure Config where
  daemon : Bool
  host : Str
  port : Int
  deriving DecidableEq, Repr

/-- Where an instance of `pull` stands. A daemon comes to `openPid` in the child of `CUtils::daemon`. -/
inductive PullPoint where
  /-- `write_pid_to_file`, before `open` -/
  | openPid
  /-- `write_pid_to_file`, before `lockf` -/
  | lockPid (fd : Nat)
  /-- `main`, on the way to `host_register` -/
  | init
  /-- inside `host_register` -/
  | register (prog : HostAct Bool)
  /-- `CRestApi::run`, before the port is bound -/
  | evhttpStart
  /-- in `event_dispatch` -/
  | dispatch
  /-- `main`, after `run` has returned -/
  | unlink
  /-- `sig_handler_terminal`, inside `remove_host` -/
  | terminal (prog : HostAct Int)
  | exited

/-- An instance: where it stands, its `_host`, and the file it has locked. `record` is a trace variable: it
has inserted its host and has not removed it since. -/
structure Pull where
  point : PullPoint
  host : Str
  lock : Option Nat
  record : Bool

/-- Where `pulld` stands in its cycle. -/
inductive PulldPoint where
  | openPid
  | lockPid (fd : Nat)
  | closePid (locked : Bool)
  | isHostExist (prog : HostAct Bool)
  | removeHost (prog : HostAct Int)
  | system
  /-- in `system`, until the instance has ended -/
  | waiting (i : Nat)
  | exited

/-- The file at the path of the pid file is known by a number, which changes when it is unlinked. -/
structure Machine where
  coll : List HostDoc
  file : Nat
  pulls : List Pull
  pulld : PulldPoint
  pulldLock : Option Nat

inductive MachineLabel where
  | startPull
  | pull (i : Nat) (ok : Bool)
  /-- `SIGTERM` or `SIGINT` -/
  | signal (i : Nat)
  | killPull (i : Nat)
  | startPulld
  | pulld (ok : Bool)
  | killPulld
  deriving DecidableEq, Repr

namespace Pull

/-- An instance that starts. -/
def start (cfg : Config) : Pull := ⟨if cfg.daemon then .openPid else .init, [], none, false⟩

def goto (p : Pull) (point : PullPoint) : Pull := { p with point }

def exit (p : Pull) : Pull := { p with point := .exited, lock := none, record := false }

/-- What a call of `host_register` leaves in the instance. -/
def noteCall (p : Pull) : HostCall → Pull
  | .setHost host _ => { p with host }
  | .insert _ => { p with record := true }
  | _ => p

/-- The next step of an instance, with the collection and the file after it. -/
def step (cfg : Config) (ok : Bool) (m : Machine) (locked : Nat → Bool) (p : Pull) :
    Option (Pull × List HostDoc × Nat) :=
  match p.point with
  | .openPid => some (if ok then p.goto (.lockPid m.file) else p.exit, m.coll, m.file)
  | .lockPid fd =>
    some (if locked fd then p.exit else { p.goto .init with lock := some fd }, m.coll, m.file)
  | .init => some (if ok then p.goto (.register (hostRegister cfg.host cfg.port)) else p.exit, m.coll, m.file)
  | .register (.call c k) =>
    let x := answerHost true c m.coll
    some ((p.noteCall c).goto (.register (k x.1)), x.2, m.file)
  | .register (.ret registered) => some (if registered then p.goto .evhttpStart else p.exit, m.coll, m.file)
  | .evhttpStart => some (if ok then p.goto .dispatch else p.exit, m.coll, m.file)
  | .dispatch => some (p.goto .unlink, m.coll, m.file)
  | .unlink => some (p.exit, m.coll, m.file + 1)
  | .terminal (.call c k) =>
    let x := answerHost true c m.coll
    some ({ p.goto (.terminal (k x.1)) with record := false }, x.2, m.file)
  | .terminal (.ret _) => some (p.exit, m.coll, m.file)
  | .exited => none

/-- The signal handler. Without the address of the database `remove_host` fails an assertion. -/
def signal (p : Pull) : Option Pull :=
  match p.point with
  | .openPid | .lockPid _ | .init => some p.exit
  | .exited => none
  | _ => some (p.goto (.terminal (removeHost p.host)))

/-- The instance has registered its host and goes on: it is about to listen, or serves. -/
def serving (p : Pull) : Bool :=
  match p.point with
  | .evhttpStart | .dispatch => true
  | _ => false

def hasExited (p : Pull) : Bool :=
  match p.point with
  | .exited => true
  | _ => false

end Pull

namespace Machine

/-- `pulld` is about to begin, and no `pull` runs. -/
def boot (coll : List HostDoc) : Machine := ⟨coll, 0, [], .openPid, none⟩

/-- Some process holds the lock of the file. -/
def locked (m : Machine) (fd : Nat) : Bool :=
  m.pulldLock = some fd || m.pulls.any fun p => p.lock = some fd

/-- The next step of `pulld`. Where `check_process_alive` returns, it sleeps and begins anew. -/
def pulldStep (cfg : Config) (ok : Bool) (m : Machine) : Option Machine :=
  match m.pulld with
  | .openPid => some { m with pulld := if ok then .lockPid m.file else .exited }
  | .lockPid fd =>
    some <| if m.locked fd then { m with pulld := .closePid false }
      else { m with pulld := .closePid true, pulldLock := some fd }
  | .closePid locked =>
    some { m with
      pulld := if locked then .isHostExist (Pulld.isHostExist cfg.host) else .openPid
      pulldLock := none }
  | .isHostExist (.call c k) =>
    let x := answerHost true c m.coll
    some { m with coll := x.2, pulld := .isHostExist (k x.1) }
  | .isHostExist (.ret found) =>
    some { m with pulld := if found then .removeHost (Pulld.removeHost cfg.host) else .system }
  | .removeHost (.call c k) =>
    let x := answerHost true c m.coll
    some { m with coll := x.2, pulld := .removeHost (k x.1) }
  | .removeHost (.ret _) => some { m with pulld := .system }
  | .system =>
    some <| if ok then
      { m with
        pulls := m.pulls ++ [Pull.start cfg]
        pulld := if cfg.daemon then .openPid else .waiting m.pulls.length }
      else { m with pulld := .openPid }
  | .waiting i =>
    match m.pulls[i]? with
    | some p => if p.hasExited then some { m with pulld := .openPid } else none
    | none => none
  | .exited => none

end Machine

def machineStep (cfg : Config) (l : MachineLabel) (m : Machine) : Option Machine :=
  match l with
  | .startPull => some { m with pulls := m.pulls ++ [Pull.start cfg] }
  | .pull i ok =>
    m.pulls[i]?.bind fun p => (p.step cfg ok m m.locked).map fun x =>
      { m with pulls := m.pulls.set i x.1, coll := x.2.1, file := x.2.2 }
  | .signal i =>
    m.pulls[i]?.bind fun p => p.signal.map fun p' => { m with pulls := m.pulls.set i p' }
  | .killPull i =>
    m.pulls[i]?.bind fun p => if p.hasExited then none else some { m with pulls := m.pulls.set i p.exit }
  | .startPulld =>
    match m.pulld with
    | .exited => some { m with pulld := .openPid }
    | _ => none
  | .pulld ok => m.pulldStep cfg ok
  | .killPulld => some { m with pulld := .exited, pulldLock := none }

/-- Every instance that has registered its host and goes on has the record of its host in the
collection. -/
def Machine.Registered (cfg : Config) (m : Machine) : Prop :=
  ∀ p ∈ m.pulls, p.serving = true → cStr cfg.host ∈ m.coll.map (·.host)

end PullStream
