import PullStream.App.IniReader
import PullStream.App.Pulld
import PullStream.Base.Ends
/-!
# What both programs do when they start

Both `main`s find out the directory they are installed in from `argv[0]`, read a configuration file, may put
themselves into the background, and ask for the address of a network interface. They have a `get_cur_path`, a
`daemon`, a `write_pid_to_file` and a `get_local_ip` each, which differ in how they report errors and in little else.

The calls are `StartCall`. A `printf` and the functions of `Log`, which hand a text to log4cplus, come to nothing that
the programs notice, and the flags set with `fcntl` and `umask` are left out. What the language leaves undefined, as
using a null pointer, is a call that is never answered, and so is an exception that nothing catches.
-/

namespace PullStream

/-- A call of the operating system, which answers with an `int` or the text of `errno`. -/
inductive SysCall where
  | fork
  | setsid
  | openFile (path : Str)
  /-- `lockf(fd, F_TLOCK, 0)` -/
  | lockf (fd : Int)
  | write (fd : Int) (buffer : Str)
  | dup2 (fd fd2 : Int)
  | close (fd : Int)
  | socket
  /-- `pthread_create` of a worker -/
  | createThread (tid : Nat)
  deriving DecidableEq, Repr

/-- The levels of `Log` that are used. -/
inductive LogLevel where
  | trace
  | info
  | error
  deriving DecidableEq, Repr

inductive StartCall where
  | sys (c : SysCall)
  /-- `ioctl(sd, SIOCGIFADDR, &ifr)`, and `inet_ntoa` of the address -/
  | ioctl (sd : Int) (ifrName : Str)
  | getpid
  | printf (text : Str)
  | log (lvl : LogLevel) (text : Str)
  /-- `Log::Init` -/
  | logInit (config : Str) (daemonized : Bool)
  /-- a function of `g_psyslog` -/
  | psyslog (op : LogOp)
  /-- `mongoc_init` -/
  | mongocInit
  /-- an operation on the `host` collection of the database at `mdb` -/
  | host (mdb : Str) (c : HostCall)
  /-- a call of `check_process_alive` -/
  | probe (c : ProbeCall)
  | system (command : Str)
  | sleep (seconds : Nat)
  | exit (status : Int)
  /-- an assertion fails -/
  | abort
  /-- an exception is not caught -/
  | terminate
  /-- the behaviour is undefined -/
  | undefined

/-- The type of a call's answer. -/
abbrev StartReply : StartCall → Type
  | .sys _ => Except Str Int
  | .ioctl _ _ => Except Str Str
  | .getpid => Int
  | .host _ c => HostReply c
  | .probe c => ProbeReply c
  | .printf _ | .log _ _ | .logInit _ _ | .psyslog _ | .mongocInit | .system _ | .sleep _ => Unit
  | .exit _ | .abort | .terminate | .undefined => Empty

abbrev StartAct := Prog StartCall StartReply

/-- The program that makes one call. -/
abbrev askStart (c : StartCall) : StartAct (StartReply c) := Prog.perform c

def exitWith {α : Type} (status : Int) : StartAct α := .call (.exit status) nofun

def undefined {α : Type} : StartAct α := .call .undefined nofun

/-! ### Paths -/

/-- `MAX_PATH_LENGTH` -/
def maxPathLength : Nat := 256

def slash : UInt8 := 47

/-- `strchr(s + pos, b)`, as an offset from `s`. -/
def strchr (s : Str) (pos : Nat) (b : UInt8) : Option Nat :=
  if b ∈ (cStr s).drop pos then some (pos + ((cStr s).drop pos).idxOf b) else none

theorem strchr_lt {s : Str} {pos q : Nat} {b : UInt8} (h : strchr s pos b = some q) :
    pos ≤ q ∧ q < (cStr s).length := by
  rw [strchr] at h
  split_ifs at h with hb
  have hlt := List.idxOf_lt_length_of_mem hb
  rw [List.length_drop] at hlt
  cases h
  omega

/-- The loop of `get_cur_path`, with `pos` an offset from `str`, and `last_slash` if it is not null. -/
def lastSlash (str : Str) (pos : Nat) (last : Option Nat) : Option Nat :=
  match h : strchr str pos slash with
  | none => last
  | some q => if q + 1 < (cStr str).length then lastSlash str (q + 1) (some q) else some q
termination_by (cStr str).length - pos
decreasing_by
  have := strchr_lt h
  omega

/-- `strncpy`. -/
def strncpy (dest src : Str) (n : Nat) : Str :=
  let s := (cStr src).take n
  s ++ List.replicate (n - s.length) 0 ++ dest.drop n

/-- `rc_strncpy` (`string/p_string.cpp`). A negative number of bytes is a very large one for `strncpy`. -/
def rcStrncpy (dest : Str) (dL : Int32) (src : Str) (sL : Int32) : Option Str :=
  if sL < dL - 1 then
    if sL < 0 then none else some ((strncpy dest src sL.toInt.toNat).set sL.toInt.toNat 0)
  else some ((strncpy dest src (dL - 1).toInt.toNat).set (dL - 1).toInt.toNat 0)

/-- `get_cur_path` of `pull` (`utils/utils.cpp`): what it returns, and what is then in `o_path`. The difference of
`last_slash` and `str` is `none` when the first is null. -/
def CUtils.getCurPath (str oPath : Str) (iL : Int32) : Option (Int × Str) := do
  let len := Int32.ofNat (← lastSlash str 0 none)
  if len > iL - 1 then return (-1, oPath)
  else if len < 0 then none
  else return (0, strncpy oPath str len.toInt.toNat)

/-- `get_cur_path` of `pulld` (`global_conf.cpp`). -/
def Pulld.getCurPath (str oPath : Str) (iL : Int32) : StartAct Str :=
  match lastSlash str 0 none with
  | none => undefined
  | some q =>
    let len := Int32.ofNat q
    if len > iL - 1 then do
      askStart (.printf (lit "path too long\n"))
      exitWith 0
    else
      match rcStrncpy oPath iL str len with
      | none => undefined
      | some oPath => pure oPath

/-- A buffer for a path, when it has been zeroed. -/
def zeroed : Str := List.replicate maxPathLength 0

/-- The paths of a program. `logPath` is `log_conf_path` in `pull`. -/
structure Paths where
  sbinPath : Str
  confPath : Str
  pidPath : Str
  logPath : Str
  deriving DecidableEq, Repr

/-- The paths that are made of what is in `sbin_path`. -/
def Paths.of (sbinPath logP : Str) : Paths where
  sbinPath := cStr sbinPath
  confPath := snprintf maxPathLength (cStr sbinPath ++ lit "/" ++ lit "../conf/1.conf")
  pidPath := snprintf maxPathLength (cStr sbinPath ++ lit "/" ++ lit "../log/pid")
  logPath := snprintf maxPathLength (cStr sbinPath ++ lit "/" ++ logP)

/-- The beginning of `main` in `pull`, which does not look at what `get_cur_path` returns. -/
def Pull.paths (argv0 : Str) : StartAct Paths :=
  match CUtils.getCurPath argv0 zeroed 256 with
  | none => undefined
  | some (_, sbinPath) => pure (Paths.of sbinPath (lit "../conf"))

/-- The beginning of `main` in `pulld`. The path that `realpath` resolves `argv[0]` to, if it does, is put into a buffer
of 256 bytes that is not used again. -/
def Pulld.paths (argv0 : Str) (resolved : Option Str) : StartAct Paths :=
  if resolved.any fun p => 256 ≤ p.length then undefined
  else do
    let sbinPath ← Pulld.getCurPath argv0 zeroed 256
    return Paths.of sbinPath (lit "../log/")

end PullStream
