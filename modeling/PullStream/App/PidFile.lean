import PullStream.App.Mains
import PullStream.Base.FileSystem
/-!
# The pid file of `pull` (`utils/utils.cpp`)

`write_pid_to_file` opens the file without cutting it, so that what was in it before stands behind the pid if it was
longer. `get_pid_from_file` reads 64 bytes into a buffer of 64 bytes and hands them to `atoi`, which stops at the first
byte that is no digit, wherever that is.

The calls are `PidCall`, and `pidAnswer` is what they do to the files. Neither function closes the file, and the flags
that they set with `fcntl` are left out.
-/

namespace PullStream

open FileSystem

inductive PidCall where
  /-- a call that `main` makes as well -/
  | start (c : StartCall)
  /-- `open(file, O_RDONLY, S_IRUSR)` -/
  | openRead (file : Str)
  | read (fd : Int) (n : Nat)

/-- The type of a call's answer. A `read` answers with what it has put into the buffer. -/
abbrev PidReply : PidCall → Type
  | .start c => StartReply c
  | .openRead _ => Except Str Int
  | .read _ _ => Except Str Str

abbrev PidAct := Prog PidCall PidReply

/-- The program that makes one call. -/
abbrev askPid (c : PidCall) : PidAct (PidReply c) := Prog.perform c

namespace CUtils

/-- `CUtils::get_pid_from_file`: what it returns, and what is then in `*o_pid`. The bytes `beyond` are what comes behind
the buffer in memory. -/
def getPidFromFile (beyond file : Str) (oPid : Int32) : PidAct (Int × Int32) := do
  let opened : Except Str Int ← askPid (.openRead file)
  match opened with
  | .error errno => do
    askPid (.start (.log .error (lit "get pid : Open " ++ file ++ lit " Error:" ++ errno ++ lit "\n")))
    pure (ErrorCode.errorOpenPidFile, oPid)
  | .ok fd => do
    let got : Except Str Str ← askPid (.read fd 64)
    match got with
    | .error errno => do
      askPid (.start (.log .error (lit "get pid : Read " ++ file ++ lit " Error:" ++ errno ++ lit "\n")))
      pure (ErrorCode.errorOpenPidFile, oPid)
    | .ok bytes => pure (ErrorCode.errorOk, atoi (cStr (bytes ++ List.replicate (64 - bytes.length) 0 ++ beyond)))

/-- `write_pid_to_file` among the calls of this module. -/
def writePid (file : Str) : PidAct Unit := Prog.lift PidCall.start (fun _ x => x) (writePidToFile file)

end CUtils

/-! ### What the calls do -/

/-- What the surroundings choose when a call is made. -/
inductive PidChoice where
  | ok
  /-- the call fails with this text of `errno` -/
  | fails (errno : Str)
  /-- no more than this many bytes are transferred -/
  | moves (n : Nat)
  deriving DecidableEq, Repr

/-- What a call does and answers in a process with the pid `pid`, `none` when the choice does not apply to it. An `open`
without `O_CREAT` can only fail when there is no file. -/
def pidAnswer (pid : Int) : (c : PidCall) → PidChoice → State Str UInt8 → Option (PidReply c × State Str UInt8)
  | .start .getpid, .ok, w => some (pid, w)
  | .start (.sys (.openFile file)), .ok, w => some (.ok w.table.lowest, (w.create file).openAt file)
  | .start (.sys (.lockf _)), .ok, w => some (.ok 0, w)
  | .start (.sys (.write fd buffer)), .moves n, w =>
    (w.write 0 fd.toNat (buffer.take n)).map fun u => (.ok (buffer.take n).length, u)
  | .start (.sys _), .fails errno, w => some (.error errno, w)
  | .start (.log _ _), .ok, w | .start (.printf _), .ok, w => some ((), w)
  | .openRead file, .ok, w => if (w.text file).isSome then some (.ok w.table.lowest, w.openAt file) else none
  | .read fd n, .moves k, w => (w.read fd.toNat (min n k)).map fun r => (.ok r.1, r.2)
  | .openRead _, .fails errno, w | .read _ _, .fails errno, w => some (.error errno, w)
  | _, _, _ => none

/-- All bytes are transferred that are there. -/
def whole : PidCall → PidChoice → State Str UInt8 → Bool
  | .start (.sys (.write _ buffer)), .moves n, _ => buffer.length ≤ n
  | .read _ n, .moves k, _ => n ≤ k
  | _, _, _ => true

/-- No call fails. -/
def unfailing (c : PidCall) (x : PidChoice) (w : State Str UInt8) : Bool :=
  match x with
  | .fails _ => false
  | _ => whole c x w

end PullStream
