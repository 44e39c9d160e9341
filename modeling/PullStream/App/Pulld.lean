import PullStream.App.HostStore
import PullStream.App.PureLog
/-!
# The probe of `pulld` (`main.cpp`)

`pulld` watches over `pull` from outside. `check_process_alive` opens the pid file of `pull` and tries to lock
it: as long as `pull` runs it holds the lock. If the lock is to be had, `pull` is not running, and the record of
the host is removed from the store.

The probe makes the calls `ProbeCall`. It writes to the log through `g_psyslog`, a `CLog` that is part of the
state, and a call of `prt` runs the program of the log module. The functions `Pulld.isHostExist` and
`Pulld.removeHost` on the store come into it as they are, between calls of `prt`; each operation of theirs takes
a connection that is closed again, and with it whatever number of descriptors the driver took for it
(`Files.session`).
-/

namespace PullStream

open Descriptors

/-- The command of `lockf`. -/
inductive LockCmd where
  | tlock
  | ulock
  deriving DecidableEq, Repr

inductive ProbeCall where
  /-- `open(file, O_RDWR|O_CREAT, 0644)` -/
  | openPid (file : Str)
  | lockf (fd : Nat) (cmd : LockCmd)
  | close (fd : Nat)
  /-- `g_psyslog->prt` -/
  | prt (lvl : LogType) (text : Str)
  /-- `connect` to `mdb`, the operation, `connect_close` -/
  | store (mdb : Str) (c : HostCall)
  | exit

/-- The type of a call's answer. An `open` that fails answers with the text of `errno`. -/
abbrev ProbeReply : ProbeCall → Type
  | .openPid _ => Except Str Nat
  | .lockf _ _ | .prt _ _ => Int
  | .close _ => Unit
  | .store _ c => HostReply c
  | .exit => Empty

abbrev ProbeAct := Prog ProbeCall ProbeReply

/-- The program that makes one call of the probe. -/
abbrev askProbe (c : ProbeCall) : ProbeAct (ProbeReply c) := Prog.perform c

/-! ### The functions -/

namespace Probe

/-- A program on the store, each of its operations with a connection of its own. -/
def ofHost {α : Type} (mdb : Str) : HostAct α → ProbeAct α
  | .ret a => .ret a
  | .call c k => .call (.store mdb c) fun x => ofHost mdb (k x)

/-- `is_host_exist` -/
def isHostExist (host mdb : Str) : ProbeAct Bool := do
  let _ ← askProbe (.prt .info (lit "mongo address: " ++ cStr mdb))
  if ← ofHost mdb (Pulld.isHostExist host) then
    let _ ← askProbe (.prt .info (lit "cache host: " ++ cStr host ++ lit " exist"))
    return true
  else
    let _ ← askProbe (.prt .info (lit "cache host: " ++ cStr host ++ lit " not exist"))
    return false

/-- `remove_host` -/
def removeHost (host mdb : Str) : ProbeAct Int := do
  let _ ← askProbe (.prt .info (lit "remove remain host " ++ cStr host))
  ofHost mdb (Pulld.removeHost host)

/-- What `check_process_alive` does between the second attempt on the lock and the last `close`. -/
def bury (host mdb : Str) : ProbeAct Unit := do
  let _ ← askProbe (.prt .crit (lit "pull2push does not running, host = " ++ cStr host))
  if ← isHostExist host mdb then
    let _ ← removeHost host mdb

/-- `check_process_alive` -/
def checkProcessAlive (file host mdb : Str) : ProbeAct Bool := do
  let opened : Except Str Nat ← askProbe (.openPid (cStr file))
  match opened with
  | .error err => do
    let _ ← askProbe (.prt .crit (lit "wrtie pid : Open " ++ cStr file ++ lit " Error:" ++ err))
    .call .exit nofun
  | .ok fd => do
    let ret ← askProbe (.lockf fd .tlock)
    askProbe (.close fd)
    if ret < 0 then do
      askProbe (.close fd)
      pure true
    else do
      let _ ← askProbe (.lockf fd .ulock)
      bury host mdb
      askProbe (.close fd)
      pure false

end Probe

/-! ### What the calls do -/

/-- A connection that takes `k` descriptors and gives them back. -/
def Files.session : Nat → Files → Files
  | 0, w => w
  | k + 1, w => (session k (w.openFile [])).closeFd w.table.lowest

/-- What the surroundings choose when a call is made. -/
inductive ProbeChoice where
  | ok
  /-- `open` fails, with this text of `errno` -/
  | openFails (err : Str)
  /-- whether the lock is to be had -/
  | lock (free : Bool)
  /-- what the calls of `prt` come to -/
  | log (xs : List LogChoice)
  /-- the document that a query yields, and how many descriptors the connection takes -/
  | found (d : Option HostDoc) (k : Nat)
  /-- whether a removal succeeds, and how many descriptors the connection takes -/
  | removed (ok : Bool) (k : Nat)
  deriving DecidableEq, Repr

/-- What a call does and answers, `none` when the choice does not apply to it. `lockf` fails on a number that
is not in use; `exit` does not return. -/
def probeAnswer (localtime : Int → Tm) :
    (c : ProbeCall) → ProbeChoice → LogState → Option (ProbeReply c × LogState)
  | .openPid file, .ok, s => some (.ok s.files.table.lowest, ⟨s.log, s.files.openFile file⟩)
  | .openPid _, .openFails err, s => some (.error err, s)
  | .lockf fd _, .lock free, s => some (if free && (s.files.table.get fd).isSome then (0 : Int) else -1, s)
  | .close n, .ok, s => some ((), ⟨s.log, s.files.closeFd n⟩)
  | .prt lvl text, .log xs, s =>
    (Prog.exec logAnswer (fun _ _ _ => true) xs (s.log.prt localtime lvl text) s.files).map fun r =>
      (r.1.1, ⟨r.1.2, r.2⟩)
  | .store _ (.findOne _), .found d k, s => some (d, ⟨s.log, s.files.session k⟩)
  | .store _ (.remove _), .removed ok k, s => some (ok, ⟨s.log, s.files.session k⟩)
  | _, _, _ => none

end PullStream
