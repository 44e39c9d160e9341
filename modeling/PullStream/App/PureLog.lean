import PullStream.App.Common
import PullStream.Base.Descriptors
import PullStream.Base.Exec
import Mathlib.Logic.Function.Basic
/-!
# The log module of `pulld` (`log/pure_log.cpp`)

A `CLog` writes to a file that it changes from time to time. It has two slots for files and swaps them by the
lowest bit of the counter `m_pos`: `new_file` opens the next file into the slot that is not the current one,
closing the file that was there before, and `prt` calls it when there is no current file and when the strategy
says that the current one is to be left (`CLog.cut`).

The calls of the module are `LogCall`, and `logAnswer` is what a call does to the open files of the process
(`Files`). The text that `vsnprintf` makes of a format and its arguments is a parameter of `prt`, and so is the
time zone, a function from clock readings to broken-down times.
-/

namespace PullStream

open Descriptors

/-! ### Texts -/

/-- What `snprintf` leaves in a buffer of `size` bytes. -/
def snprintf (size : Nat) (s : Str) : Str := s.take (size - 1)

def sign (n : Int) : Str := if n < 0 then lit "-" else []

def digits (n : Int) : Str := (Nat.toDigits 10 n.natAbs).map fun c => UInt8.ofNat c.toNat

/-- `%d` -/
def fmtD (n : Int) : Str := sign n ++ digits n

/-- `%0wd` -/
def fmt0D (w : Nat) (n : Int) : Str :=
  sign n ++ List.replicate (w - (fmtD n).length) 48 ++ digits n

/-- The fields of `struct tm` that the module reads. -/
structure Tm where
  year : Int
  mon : Int
  mday : Int
  hour : Int
  min : Int
  sec : Int
  deriving DecidableEq, Repr

/-- `PURE_LOG_TYPE_E`. -/
inductive LogType where
  | term
  | crit
  | error
  | warn
  | info
  | debug
  deriving DecidableEq, Repr

def LogType.val : LogType → Nat
  | .term => 0
  | .crit => 1
  | .error => 2
  | .warn => 3
  | .info => 4
  | .debug => 5

/-- `lvl` -/
def LogType.lvl : LogType → Str
  | .term => lit "TERM"
  | .crit => lit "CRIT"
  | .error => lit "ERROR"
  | .warn => lit "WARN"
  | .info => lit "INFO"
  | .debug => lit "DEBUG"

/-- A line of the log: what `prt` puts together in `buf`, and the clock reading that the line is stamped with. -/
structure Line where
  time : Int
  ptime : Tm
  lvl : LogType
  parameters : Str
  deriving DecidableEq, Repr

namespace Line

def dateStr (l : Line) : Str :=
  snprintf 128 (lit "[" ++ fmt0D 4 (l.ptime.year + 1900) ++ lit "-" ++ fmt0D 2 (l.ptime.mon + 1) ++ lit "-" ++
    fmt0D 2 l.ptime.mday ++ lit " " ++ fmt0D 2 l.ptime.hour ++ lit "-" ++ fmt0D 2 l.ptime.min ++ lit "-" ++
    fmt0D 2 l.ptime.sec ++ lit "]")

def buf (l : Line) : Str :=
  snprintf 1024 (l.dateStr ++ lit "[" ++ l.lvl.lvl ++ lit "] " ++ l.parameters ++ lit "\n")

end Line

/-! ### Calls and the files of the process -/

inductive LogCall where
  /-- `time(NULL)` -/
  | time
  /-- `open(path, O_WRONLY|O_CREAT|O_APPEND, 0644)` -/
  | openLog (path : Str)
  | close (fd : Nat)
  /-- `write(fd, buf, buf_len)`, the descriptor `none` being `-1` -/
  | write (fd : Option Nat) (line : Line)
  | printf (text : Str)
  /-- `%` by zero -/
  | divZero

/-- The type of a call's answer. An `open` that fails answers with the text of `errno`. -/
abbrev LogReply : LogCall → Type
  | .time | .write _ _ => Int
  | .openLog _ => Except Str Nat
  | .close _ | .printf _ => Unit
  | .divZero => Empty

/-- Programs of the log module. -/
abbrev LogAct := Prog LogCall LogReply

/-- The program that makes one call of the log module. -/
abbrev askLog (c : LogCall) : LogAct (LogReply c) := Prog.perform c

/-- A file that the process has opened. Each `open` makes another one; `opened` is what the clock last said
before it. -/
structure OpenFile where
  id : Nat
  path : Str
  opened : Int
  deriving DecidableEq, Repr

/-- The open files of a process. `logs` and `written` are trace variables: the log files opened so far, and
every line written so far with the file it went to and the number of bytes written. -/
structure Files where
  table : Table OpenFile
  count : Nat
  clock : Int
  logs : List OpenFile
  written : List (OpenFile × Line × Nat)
  id_lt : ∀ n f, table.get n = some f → f.id < count
  logs_id_lt : ∀ f ∈ logs, f.id < count

namespace Files

/-- A process with nothing open. -/
def empty (clock : Int) : Files where
  table := []
  count := 0
  clock := clock
  logs := []
  written := []
  id_lt _ _ h := by cases h
  logs_id_lt _ h := by cases h

/-- The file that the next `open` makes. -/
def make (w : Files) (path : Str) : OpenFile := ⟨w.count, path, w.clock⟩

/-- A file is opened at the lowest free descriptor. -/
def openFile (w : Files) (path : Str) : Files where
  table := w.table.alloc (w.make path)
  count := w.count + 1
  clock := w.clock
  logs := w.logs
  written := w.written
  id_lt n f h := by
    rw [Table.get_alloc] at h
    split_ifs at h
    · cases h
      exact Nat.lt_succ_self w.count
    · exact Nat.lt_succ_of_lt (w.id_lt n f h)
  logs_id_lt f hf := Nat.lt_succ_of_lt (w.logs_id_lt f hf)

/-- A log file is opened. -/
def openLog (w : Files) (path : Str) : Files :=
  { w.openFile path with
    logs := w.logs ++ [w.make path]
    logs_id_lt := fun f hf => by
      rcases List.mem_append.mp hf with hf | hf
      · exact Nat.lt_succ_of_lt (w.logs_id_lt f hf)
      · obtain rfl := List.mem_singleton.mp hf
        exact Nat.lt_succ_self w.count }

def closeFd (w : Files) (n : Nat) : Files :=
  { w with
    table := w.table.close n
    id_lt := fun m f h => by
      rw [Table.get_close] at h
      split_ifs at h
      exact w.id_lt m f h }

/-- The clock is read. -/
def tick (w : Files) (t : Int) : Files := { w with clock := t }

def record (w : Files) (f : OpenFile) (line : Line) (k : Nat) : Files :=
  { w with written := w.written ++ [(f, line, k)] }

end Files

/-- What the surroundings choose when a call is made. -/
inductive LogChoice where
  /-- what the clock says -/
  | now (t : Int)
  | opened
  /-- `open` fails, with this text of `errno` -/
  | openFails (err : Str)
  /-- the number of bytes written -/
  | wrote (k : Nat)
  | writeFails
  | ok
  deriving DecidableEq, Repr

/-- What a call does and answers, `none` when the choice does not apply to it. Closing a number that is not in
use changes nothing, and nothing is written to one. -/
def logAnswer : (c : LogCall) → LogChoice → Files → Option (LogReply c × Files)
  | .time, .now t, w => some (t, w.tick t)
  | .openLog path, .opened, w => some (.ok w.table.lowest, w.openLog path)
  | .openLog _, .openFails err, w => some (.error err, w)
  | .close n, .ok, w => some ((), w.closeFd n)
  | .write (some n) line, .wrote k, w =>
    match w.table.get n with
    | some f => if k ≤ line.buf.length then some ((k : Int), w.record f line k) else none
    | none => none
  | .write _ _, .writeFails, w => some ((-1 : Int), w)
  | .printf _, .ok, w => some ((), w)
  | _, _, _ => none

/-! ### The class -/

/-- `PURE_LOG_STRATEGE_TYPE_E`. -/
inductive StrategeType where
  | time
  | space
  | const
  deriving DecidableEq, Repr

/-- `PURE_LOG_TIME_STRATEGE_E`. -/
inductive TimeStrategeType where
  | hour
  | day
  | week
  deriving DecidableEq, Repr

/-- `LOG_TANK_CONSOLE`, and any other value of `log_tank`. -/
inductive LogTank where
  | console
  | file
  deriving DecidableEq, Repr

/-- What `new_file` returns. -/
inductive FileStatus where
  | success
  | failure
  | retry
  deriving DecidableEq, Repr

/-- `CLog`. A descriptor of `m_fd` that is `-1` is `none`. -/
structure CLog where
  filename : Str
  strategeType : StrategeType
  timeStrategeType : TimeStrategeType
  amountSize : Int32
  logLevel : LogType
  curFiletime : Fin 2 → Tm
  curFileSize : Fin 2 → UInt32
  maxFileSize : UInt32
  fd : Fin 2 → Option Nat
  pos : UInt32
  busy : Bool
  logTank : LogTank

/-- `pos & 0x1` -/
def slot (pos : UInt32) : Fin 2 := if pos &&& 1 = 0 then 0 else 1

theorem slot_succ_ne (pos : UInt32) : slot (pos + 1) ≠ slot pos := by
  have hmod (p : UInt32) : p &&& 1 = 0 ↔ p.toNat % 2 = 0 := by
    rw [← UInt32.toNat_inj, UInt32.toNat_and]
    exact Nat.and_one_is_mod p.toNat ▸ Iff.rfl
  have hsucc : (pos + 1).toNat = (pos.toNat + 1) % 2 ^ 32 := UInt32.toNat_add pos 1
  simp only [slot, hmod]
  split_ifs <;> omega

namespace CLog

/-- The constructor, which leaves `log_tank` as it is. -/
def new (tank : LogTank) : CLog where
  filename := []
  strategeType := .const
  timeStrategeType := .hour
  amountSize := 10
  logLevel := .debug
  curFiletime := fun _ => ⟨0, 0, 0, 0, 0, 0⟩
  curFileSize := fun _ => 0
  maxFileSize := 10 * 1024 * 1024
  fd := fun _ => none
  pos := -1
  busy := false
  logTank := tank

/-- `m_pos & 0x1` -/
def cur (g : CLog) : Fin 2 := slot g.pos

/-- `m_next` -/
def next (g : CLog) : Fin 2 := slot (g.pos + 1)

theorem next_ne_cur (g : CLog) : g.next ≠ g.cur := slot_succ_ne g.pos

/-- `m_cur_filename` of `new_file`: with the date and the hour, with the number of the file, or with neither. -/
def curFilename (g : CLog) (ptime : Tm) : LogAct Str :=
  match g.strategeType with
  | .time =>
    let suffix := snprintf 128 (fmt0D 4 (ptime.year + 1900) ++ fmt0D 2 (ptime.mon + 1) ++ fmt0D 2 ptime.mday ++
      lit "_" ++ fmt0D 2 ptime.hour ++ lit "h")
    pure (snprintf 256 (g.filename ++ lit "_" ++ suffix ++ lit ".log"))
  | .space =>
    if g.amountSize.toUInt32 = 0 then .call .divZero nofun
    else
      let index := (g.pos + 1) % g.amountSize.toUInt32 + 1
      pure (snprintf 256 (g.filename ++ lit "_" ++ fmtD index.toInt32.toInt ++ lit ".log"))
  | .const => pure (snprintf 256 (g.filename ++ lit ".log"))

/-- `new_file` when `open` has failed. -/
def lose (g : CLog) : CLog := { g with fd := Function.update g.fd g.next none, busy := false }

/-- `new_file` when `open` has returned `n`. -/
def enter (g : CLog) (ptime : Tm) (n : Nat) : CLog :=
  { g with
    fd := Function.update g.fd g.next (some n)
    curFiletime := Function.update g.curFiletime g.next ptime
    curFileSize := Function.update g.curFileSize g.next 0
    pos := g.pos + 1
    busy := false }

/-- The descriptor of a slot is closed, if the slot has one. -/
def closeSlot : Option Nat → LogAct Unit
  | none => pure ()
  | some n => askLog (.close n)

/-- The file is opened into the next slot. -/
def openNext (ptime : Tm) (filename : Str) (g : CLog) : LogAct (FileStatus × CLog) := do
  let opened : Except Str Nat ← askLog (.openLog filename)
  match opened with
  | .error err => do
    askLog (.printf (lit "log mod : Open " ++ filename ++ lit " Error:" ++ err ++ lit "\n"))
    pure (.failure, g.lose)
  | .ok n => pure (.success, g.enter ptime n)

/-- `CLog::new_file`. Its branches for the strategies differ in the name of the file alone. -/
def newFile (localtime : Int → Tm) (g : CLog) : LogAct (FileStatus × CLog) :=
  if g.busy then pure (.retry, g)
  else do
    let g := { g with busy := true }
    let t ← askLog .time
    closeSlot (g.fd g.next)
    let filename ← g.curFilename (localtime t)
    g.openNext (localtime t) filename

/-- The file of the current slot is to be left before a line is written at `ptime`. -/
def cut (g : CLog) (ptime : Tm) : Bool :=
  match g.strategeType with
  | .time =>
    match g.timeStrategeType with
    | .hour => (g.curFiletime g.cur).hour ≠ ptime.hour
    | .day => (g.curFiletime g.cur).mday ≠ ptime.mday
    | .week => false
  | .space => ¬ g.curFileSize g.cur < g.maxFileSize - 512
  | .const => false

/-- `ATOMIC_FADD(&m_cur_file_size[m_pos & 0x1], ret)`, if `ret` is positive. -/
def addSize (g : CLog) (ret : Int) : CLog :=
  if 0 < ret then
    { g with curFileSize := Function.update g.curFileSize g.cur (g.curFileSize g.cur + UInt32.ofInt ret) }
  else g

/-- If a file is needed, `new_file` is called, and when it fails so does `prt`. -/
def withFile (localtime : Int → Tm) (need : Bool) (g : CLog) (k : CLog → LogAct (Int × CLog)) :
    LogAct (Int × CLog) :=
  if need then do
    let (status, g) ← newFile localtime g
    if status = .failure then pure (-1, g) else k g
  else k g

/-- The line is written to the current file. -/
def writeLine (line : Line) (g : CLog) : LogAct (Int × CLog) := do
  let ret ← askLog (.write (g.fd g.cur) line)
  pure (if g.strategeType = .const then 0 else ret, g.addSize ret)

/-- `CLog::prt`; `text` is what the format and the arguments come to. -/
def prt (localtime : Int → Tm) (lvl : LogType) (text : Str) (g : CLog) : LogAct (Int × CLog) :=
  if g.logLevel.val < lvl.val then pure (0, g)
  else do
    let t ← askLog .time
    let ptime := localtime t
    let parameters := snprintf 512 (cStr text)
    if g.logTank = .console then
      askLog (.printf (parameters ++ lit "\n"))
      pure (0, g)
    else
      withFile localtime (g.fd g.cur).isNone g fun g =>
        withFile localtime (g.cut ptime) g (writeLine ⟨t, ptime, lvl, parameters⟩)

/-- `CLog::init` -/
def init (localtime : Int → Tm) (path filename : Str) (g : CLog) : LogAct CLog :=
  if (cStr path).length + (cStr filename).length > 255 then do
    askLog (.printf (lit "Too long path and filename\n"))
    pure g
  else do
    let (_, g) ← newFile localtime { g with filename := snprintf 256 (cStr path ++ cStr filename) }
    pure g

def setLogLevel (lvl : LogType) (g : CLog) : CLog := { g with logLevel := lvl }

def setLogTank (tank : Str) (g : CLog) : CLog :=
  if cStr tank = lit "file" then { g with logTank := .file }
  else if cStr tank = lit "console" then { g with logTank := .console }
  else g

def setLogOutByTime (h : Int) (g : CLog) : CLog :=
  { g with strategeType := .time, timeStrategeType := if 0 < h then .hour else .day }

def setLogOutByAmount (len size : Int32) (g : CLog) : CLog :=
  { g with strategeType := .space, amountSize := size, maxFileSize := len.toUInt32 }

/-- A descriptor is closed if it is positive. -/
def closePositive : Option Nat → LogAct Unit
  | some (n + 1) => askLog (.close (n + 1))
  | _ => pure ()

/-- The destructor. -/
def destroy (g : CLog) : LogAct Unit := do
  closePositive (g.fd 0)
  closePositive (g.fd 1)

end CLog

/-! ### A process that uses the module -/

structure LogState where
  log : CLog
  files : Files

/-- The public functions of `CLog`. -/
inductive LogOp where
  | init (path filename : Str)
  | setLogLevel (lvl : LogType)
  | setLogTank (tank : Str)
  | setLogOutByTime (h : Int)
  | setLogOutByAmount (len size : Int32)
  | prt (lvl : LogType) (text : Str)

def LogOp.prog (localtime : Int → Tm) (g : CLog) : LogOp → LogAct CLog
  | .init path filename => g.init localtime path filename
  | .setLogLevel lvl => pure (g.setLogLevel lvl)
  | .setLogTank tank => pure (g.setLogTank tank)
  | .setLogOutByTime h => pure (g.setLogOutByTime h)
  | .setLogOutByAmount len size => pure (g.setLogOutByAmount len size)
  | .prt lvl text => do
    let (_, g) ← g.prt localtime lvl text
    pure g

/-- A function is called, and its calls turn out as the label says and `ok` allows. -/
def LogState.step (localtime : Int → Tm) (ok : LogCall → LogChoice → Files → Bool) (l : LogOp × List LogChoice)
    (s : LogState) : Option LogState :=
  (Prog.exec logAnswer ok l.2 (l.1.prog localtime s.log) s.files).map fun r => ⟨r.1, r.2⟩

end PullStream
