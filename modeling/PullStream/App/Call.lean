import PullStream.App.Common
import PullStream.Base.Prog
import PullStream.Base.Keyed
/-!
# What the service asks of MongoDB and of the operating system

The service touches the world through the calls of `Call`: the driver operations behind `MongoAdaptor`
on the `process` collection, and `fork`, `execl` and `kill`. `Act α` is a program over these calls, and
`answer` is what a call does to the collection and to the process table of the host, given what the
surroundings choose (`Choice`): whether a driver call succeeds, and which pid a `fork` returns.

A document travels back as JSON text and is taken apart with jsoncpp. Only `asString` and `asInt` of
members of the parsed root are ever used, so a text is represented by what the parser makes of it: no
value when it does not parse, else, for every member name, what these two accessors return or throw.
-/

namespace PullStream

/-! ### JSON -/

/-- A jsoncpp value as far as the service looks at it: the result of `asString()` and of `asInt()`, or
the `what()` of the exception thrown. -/
structure JsonValue where
  asString : Except Str Str
  asInt : Except Str Int

/-- A parsed root: the value of `root[name]`, or the exception it throws (`root` is no object). -/
abbrev Root := String → Except Str JsonValue

/-- A JSON text, by what `Json::Reader::parse` makes of it. -/
abbrev Text := Option Root

namespace JsonValue

def null : JsonValue := ⟨.ok [], .ok 0⟩

def ofStr (s : Str) : JsonValue := ⟨.ok s, .error (lit "Value is not convertible to Int.")⟩

def ofInt (n : Int) : JsonValue := ⟨.ok (lit (toString n)), .ok n⟩

end JsonValue

def Root.getString (root : Root) (name : String) : Except Str Str := do (← root name).asString

def Root.getInt (root : Root) (name : String) : Except Str Int := do (← root name).asInt

/-! ### Documents of the `process` collection -/

/-- A document of the `process` collection: the eight fields `add_process_to_cache` writes. -/
abbrev Doc := ProcessInfo

/-- The text of a document (`bson_as_json`), parsed. -/
def Doc.text (shown : String → Str → Str) (d : Doc) : Text :=
  some fun name => .ok <| match name with
    | "sid" => .ofStr (shown "sid" d.sid)
    | "pid" => .ofInt d.pid
    | "ppid" => .ofInt d.ppid
    | "src_url" => .ofStr (shown "src_url" d.srcUrl)
    | "dest_url" => .ofStr (shown "dest_url" d.destUrl)
    | "type" => .ofInt d.type
    | "status" => .ofStr (shown "status" d.status)
    | "host" => .ofStr (shown "host" d.host)
    | _ => .null

/-- What a document looks like to the service. -/
def Doc.seen (shown : String → Str → Str) (d : Doc) : ProcessInfo where
  sid := shown "sid" d.sid
  pid := d.pid
  ppid := d.ppid
  srcUrl := shown "src_url" d.srcUrl
  destUrl := shown "dest_url" d.destUrl
  type := d.type
  status := shown "status" d.status
  host := shown "host" d.host

/-- The queries the service builds. -/
inductive Query where
  | all
  | sid (s : Str)
  | pid (p : Int)
  | ppidNe (p : Int)
  deriving DecidableEq, Repr

def Query.matches : Query → Doc → Bool
  | .all, _ => true
  | .sid s, d => d.sid = s
  | .pid p, d => d.pid = p
  | .ppidNe p, d => d.ppid ≠ p

/-! ### Calls and answers -/

/-- `SIGKILL`. -/
def sigkill : Nat := 9

inductive Call where
  | findOne (q : Query)
  | find (q : Query)
  | insert (d : Doc)
  /-- `$set: {pid}` on the first match. -/
  | update (q : Query) (pid : Int)
  /-- Removal of the first match. -/
  | remove (q : Query)
  /-- `fork()` by a function that spawns a process for `param`. -/
  | fork (param : ProcessInfo)
  | execl (cmd : Str)
  | kill (pid : Int) (sig : Nat)
  /-- `assert(0)` -/
  | assertFail
  deriving DecidableEq

/-- The type of a call's answer. A cursor yields the text of a document or nothing, a driver write a
success flag, a system call its return value. -/
abbrev Reply : Call → Type
  | .findOne _ => Option Text
  | .find _ => List Text
  | .insert _ | .update _ _ | .remove _ => Bool
  | .fork _ | .execl _ | .kill _ _ => Int
  | .assertFail => Empty

/-- Programs of the service. -/
abbrev Act := Prog Call Reply

/-- The program that makes one call. -/
abbrev invoke (c : Call) : Act (Reply c) := Prog.perform c

/-! ### The world a call acts on -/

/-- A process of a host: its pid and, if the service forked it, the `_process_info` it was forked for. -/
structure Proc where
  pid : Int
  owner : Option ProcessInfo
  deriving DecidableEq, Repr

/-- The process table of a host. `used` is a trace variable: every pid that some process of the host or
some record has had. -/
structure Os where
  procs : List Proc
  used : List Int
  deriving DecidableEq, Repr

/-- Some process has the pid. -/
def Os.alive (os : Os) (p : Int) : Bool := os.procs.any fun a => a.pid = p

/-- The table after the process with the pid is gone. -/
def Os.drop (os : Os) (p : Int) : Os := { os with procs := os.procs.filter fun a => a.pid ≠ p }

/-- The table after a process appeared. -/
def Os.add (os : Os) (a : Proc) : Os := ⟨os.procs ++ [a], os.used ++ [a.pid]⟩

/-- The collection and the process table of the host a call is made on. -/
structure Store where
  coll : List Doc
  os : Os
  deriving DecidableEq, Repr

/-- What the surroundings choose when a call is made. -/
inductive Choice where
  | ok
  /-- the driver call fails -/
  | dbFail
  /-- `fork` fails -/
  | forkFail
  /-- `fork` succeeds in the parent with this pid -/
  | pid (p : Int)
  /-- `execl` fails, the only way it returns -/
  | execFail
  deriving DecidableEq, Repr

/-- What a call does and answers, `none` when the choice does not apply to it. A failed driver call
changes nothing; a query that fails yields no document. `fork` never returns the pid of a process that
exists. Recorded pids come from `fork`, so `kill` is modelled for a pid that names one process. -/
def answer (shown : String → Str → Str) : (c : Call) → Choice → Store → Option (Reply c × Store)
  | .findOne q, .ok, st => some ((st.coll.find? q.matches).map (Doc.text shown), st)
  | .findOne _, .dbFail, st => some (none, st)
  | .find q, .ok, st => some ((st.coll.filter q.matches).map (Doc.text shown), st)
  | .find _, .dbFail, st => some ([], st)
  | .insert d, .ok, st => some (true, { st with coll := st.coll ++ [d] })
  | .insert _, .dbFail, st => some (false, st)
  | .update q p, .ok, st =>
    some (true, { st with coll := Keyed.modifyFirst q.matches (fun d => { d with pid := p }) st.coll })
  | .update _ _, .dbFail, st => some (false, st)
  | .remove q, .ok, st => some (true, { st with coll := st.coll.eraseP q.matches })
  | .remove _, .dbFail, st => some (false, st)
  | .fork param, .pid p, st =>
    if 0 < p ∧ st.os.alive p = false then some (p, { st with os := st.os.add ⟨p, some param⟩ }) else none
  | .fork _, .forkFail, st => some (-1, st)
  | .execl _, .execFail, st => some (-1, st)
  | .kill p sig, .ok, st =>
    some (if st.os.alive p then 0 else -1, if sig = sigkill then { st with os := st.os.drop p } else st)
  | _, _, _ => none

end PullStream
