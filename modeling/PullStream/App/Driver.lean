import PullStream.App.ServerBiz
import PullStream.Base.Commit
import PullStream.Base.Descriptors
/-!
# The service on the driver of MongoDB (`app/mongoCommonApi.cpp`)

In `App.Call` the service asks a query, inserts, updates and removes by one call each. In the source each of these
calls is a session with the driver: a client is made and a collection taken from it, the query is built, the operation
is made, and what was made for it is destroyed. Here the sessions stand as `ServerBiz` and `MongoAdaptor` have them.
`carryOut` is the session for a call, so that `Prog.subst carryOut` makes of a function of the service one that talks to
the driver, and `DriverSys` is the service whose threads run these.

An operation of the driver is a `DriverOp` if it only touches objects of the thread that makes it, and a `ServerOp` if
it reaches the server; the system calls are among the latter. An object is known by a pointer, which is its number in
the table of the thread. What has been destroyed is no longer in the table, and an operation on it cannot be made.

The query of a cursor is sent by the first call of `mongoc_cursor_next`, which follows at once on the call that made the
cursor; `openCursor` is both. The documents come in batches: those of the first come with the answer to the query, and
each further batch is asked for when the one before has been used up, which may fail. How many batches there are is
chosen when the query is answered, and what is in a further one when it comes (`Batch`), since others write in between.

Given an address that it cannot parse `mongoc_client_new` returns `NULL`, and the assertion of `connect` fails. That
ends `pull` before it has registered its host; a service that runs has an address for which there are clients. The
driver adds a field `_id` to a document that it inserts, which nobody reads and which is left out.
-/

namespace PullStream

open Descriptors

/-! ### Documents -/

inductive Scalar where
  | utf8 (s : Str)
  | int32 (n : Int)
  deriving DecidableEq, Repr

/-- The value of a field. -/
inductive BsonValue where
  | scalar (x : Scalar)
  | document (fields : List (String × Scalar))
  deriving DecidableEq, Repr

/-- The fields of a `bson_t`, in order. -/
abbrev Bson := List (String × BsonValue)

namespace BsonValue

/-- What a field of a query asks of the value that a document has for it. The one operator in use is `$ne`. -/
def accepts (found : Option BsonValue) : BsonValue → Bool
  | .scalar x => found = some (.scalar x)
  | .document ops => ops.all fun op => op.1 = "$ne" && found ≠ some (.scalar op.2)

/-- A member of the text of a document, as jsoncpp sees it. -/
def json (shown : String → Str → Str) (name : String) : Option BsonValue → JsonValue
  | none => .null
  | some (.scalar (.utf8 s)) => .ofStr (shown name s)
  | some (.scalar (.int32 n)) => .ofInt n
  | some (.document _) =>
    ⟨.error (lit "Type is not convertible to string"), .error (lit "Value is not convertible to Int.")⟩

end BsonValue

namespace Bson

/-- The query selects the document. -/
def selects (query doc : Bson) : Bool := query.all fun f => f.2.accepts (doc.lookup f.1)

/-- What `$set` does with one field. -/
def set (doc : Bson) (f : String × Scalar) : Bson :=
  if (doc.lookup f.1).isSome then doc.map fun g => if g.1 = f.1 then (f.1, .scalar f.2) else g
  else doc ++ [(f.1, .scalar f.2)]

/-- The document after an update, whose one operator is `$set`. -/
def update (u doc : Bson) : Bson :=
  u.foldl (fun doc g =>
    match g.2 with
    | .document fields => if g.1 = "$set" then fields.foldl set doc else doc
    | .scalar _ => doc) doc

/-- The text of a document (`bson_as_json`), parsed. -/
def text (shown : String → Str → Str) (doc : Bson) : Text :=
  some fun name => .ok (BsonValue.json shown name (doc.lookup name))

/-- The fields that are no documents. -/
def scalars (doc : Bson) : List (String × Scalar) :=
  doc.filterMap fun f =>
    match f.2 with
    | .scalar x => some (f.1, x)
    | .document _ => none

end Bson

/-- A record of the `process` collection, as `add_process_to_cache` builds it. -/
def Doc.bson (d : Doc) : Bson :=
  [("sid", .scalar (.utf8 d.sid)), ("pid", .scalar (.int32 d.pid)), ("ppid", .scalar (.int32 d.ppid)),
    ("src_url", .scalar (.utf8 d.srcUrl)), ("dest_url", .scalar (.utf8 d.destUrl)),
    ("type", .scalar (.int32 d.type)), ("status", .scalar (.utf8 d.status)), ("host", .scalar (.utf8 d.host))]

/-! ### Objects and operations -/

inductive DriverObj where
  | client (addr : Str)
  | collection (client : Nat) (db tb : String)
  /-- with the key and the pointer of the subdocument that has been begun in it -/
  | bson (doc : Bson) (sub : Option (String × Nat))
  /-- with the documents of the batch that are still to come, once the query has been sent -/
  | cursor (client : Nat) (db tb : String) (query : Bson) (docs : Option (List Bson))
  | str (text : Text)

/-- What a thread has of the driver. -/
abbrev DriverMem := Table DriverObj

inductive DriverOp where
  | clientNew (addr : Str)
  | clientGetCollection (client : Nat) (db tb : String)
  | bsonNew
  /-- `BSON_APPEND_UTF8`, `BSON_APPEND_INT32` -/
  | append (b : Nat) (key : String) (x : Scalar)
  | beginDocument (b : Nat) (key : String) (child : Nat)
  | endDocument (b child : Nat)
  | findWithOpts (collection query : Nat)
  | cursorNext (cursor : Nat)
  | asJson (doc : Bson)
  /-- the string is copied to a `std::string` -/
  | copyStr (str : Nat)
  | bsonFree (str : Nat)
  | bsonDestroy (b : Nat)
  | collectionDestroy (collection : Nat)
  | clientDestroy (client : Nat)

inductive ServerOp where
  /-- the query of the cursor is sent and answered, with the first batch -/
  | send (cursor : Nat)
  /-- the next batch is asked for -/
  | getMore (cursor : Nat)
  | insert (collection doc : Nat)
  | update (collection query update : Nat)
  /-- with `MONGOC_REMOVE_SINGLE_REMOVE` -/
  | remove (collection query : Nat)
  | fork (param : ProcessInfo)
  | execl (cmd : Str)
  | kill (pid : Int) (sig : Nat)
  | assertFail

abbrev DriverReply : DriverOp → Type
  | .clientNew _ | .clientGetCollection _ _ _ | .bsonNew | .findWithOpts _ _ | .asJson _ => Nat
  | .append _ _ _ | .beginDocument _ _ _ | .endDocument _ _ | .bsonFree _ | .bsonDestroy _ => Unit
  | .collectionDestroy _ | .clientDestroy _ => Unit
  | .cursorNext _ => Option Bson
  | .copyStr _ => Text

abbrev ServerReply : ServerOp → Type
  | .send _ => Nat × Nat
  | .getMore _ => Option Nat
  | .insert _ _ | .update _ _ _ | .remove _ _ => Bool
  | .fork _ | .execl _ | .kill _ _ => Int
  | .assertFail => Empty

/-- Programs that talk to the driver. -/
abbrev DriverAct := Prog.Low DriverReply ServerReply

/-- The program that makes one operation of the driver. -/
def own (op : DriverOp) : DriverAct (DriverReply op) := .call (.inl op) .ret

def shared (op : ServerOp) : DriverAct (ServerReply op) := .call (.inr op) .ret

namespace DriverMem

variable (m : DriverMem)

/-- The object at a pointer that is in use is changed. -/
def put (p : Nat) (o : DriverObj) : DriverMem := m.set p (some o)

/-- The document at a pointer, if no subdocument of it is unfinished. -/
def bsonAt (p : Nat) : Option Bson :=
  match m.get p with
  | some (.bson doc none) => some doc
  | _ => none

def clientAt (p : Nat) : Option Str :=
  match m.get p with
  | some (.client addr) => some addr
  | _ => none

/-- The collection at a pointer, if its client is still there: the client, the database and the name. -/
def collectionAt (p : Nat) : Option (Nat × String × String) :=
  match m.get p with
  | some (.collection client db tb) => (m.clientAt client).map fun _ => (client, db, tb)
  | _ => none

end DriverMem

/-- What an operation does to the objects of the thread, `none` when it is made on something else. -/
def driverOwn (shown : String → Str → Str) : (op : DriverOp) → DriverMem → Option (DriverReply op × DriverMem)
  | .clientNew addr, m => some (m.lowest, m.alloc (.client addr))
  | .clientGetCollection client db tb, m =>
    (m.clientAt client).map fun _ => (m.lowest, m.alloc (.collection client db tb))
  | .bsonNew, m => some (m.lowest, m.alloc (.bson [] none))
  | .append b key x, m => (m.bsonAt b).map fun doc => ((), m.put b (.bson (doc ++ [(key, .scalar x)]) none))
  | .beginDocument b key child, m =>
    (m.bsonAt b).bind fun doc => (m.bsonAt child).map fun _ =>
      ((), (m.put b (.bson doc (some (key, child)))).put child (.bson [] none))
  | .endDocument b child, m =>
    match m.get b with
    | some (.bson doc (some (key, c))) =>
      if c = child then
        (m.bsonAt child).map fun sub => ((), m.put b (.bson (doc ++ [(key, .document sub.scalars)]) none))
      else none
    | _ => none
  | .findWithOpts collection query, m =>
    (m.collectionAt collection).bind fun c => (m.bsonAt query).map fun q =>
      (m.lowest, m.alloc (.cursor c.1 c.2.1 c.2.2 q none))
  | .cursorNext cursor, m =>
    match m.get cursor with
    | some (.cursor client db tb query (some docs)) =>
      (m.clientAt client).map fun _ => (docs.head?, m.put cursor (.cursor client db tb query (some docs.tail)))
    | _ => none
  | .asJson doc, m => some (m.lowest, m.alloc (.str (doc.text shown)))
  | .copyStr p, m =>
    match m.get p with
    | some (.str text) => some (text, m)
    | _ => none
  | .bsonFree p, m =>
    match m.get p with
    | some (.str _) => some ((), m.close p)
    | _ => none
  | .bsonDestroy b, m => (m.bsonAt b).map fun _ => ((), m.close b)
  | .collectionDestroy p, m => (m.collectionAt p).map fun _ => ((), m.close p)
  | .clientDestroy p, m => (m.clientAt p).map fun _ => ((), m.close p)

/-- The server, with the documents of each collection, and the process table of the host. -/
structure Backend where
  docs : String → String → List Bson
  os : Os

/-- The backend after the documents of one collection have been changed. -/
def Backend.modify (w : Backend) (db tb : String) (f : List Bson → List Bson) : Backend :=
  { w with docs := fun db' tb' => if db' = db ∧ tb' = tb then f (w.docs db tb) else w.docs db' tb' }

/-- How a query is answered in more than one batch. -/
inductive Batch where
  /-- with its first `n` documents, and `k` batches are to follow -/
  | first (n k : Nat)
  /-- the next batch -/
  | next (docs : List Bson)
  /-- the next batch fails -/
  | fails

/-- What an operation on the server does and answers, the system calls being those of `answer`. A query is answered in
one batch, unless a `Batch` is chosen. It is answered with how many documents are in the batch and how many batches are
to follow; a batch that is not the last has some document. A failed operation changes nothing, and a failed query yields
no document. -/
def serverAnswer (shown : String → Str → Str) :
    (op : ServerOp) → Choice ⊕ Batch → DriverMem → Backend → Option (ServerReply op × DriverMem × Backend)
  | .send cursor, x, m, w =>
    match m.get cursor with
    | some (.cursor client db tb query none) =>
      (m.clientAt client).bind fun _ =>
        let docs := (w.docs db tb).filter query.selects
        match x with
        | .inl .ok => some ((docs.length, 0), m.put cursor (.cursor client db tb query (some docs)), w)
        | .inl .dbFail => some ((0, 0), m.put cursor (.cursor client db tb query (some [])), w)
        | .inr (.first n k) =>
          if 0 < n ∧ n ≤ docs.length then
            some ((n, k), m.put cursor (.cursor client db tb query (some (docs.take n))), w)
          else none
        | _ => none
    | _ => none
  | .getMore cursor, x, m, w =>
    match m.get cursor with
    | some (.cursor client db tb query (some [])) =>
      (m.clientAt client).bind fun _ =>
        match x with
        | .inr (.next docs) => some (some docs.length, m.put cursor (.cursor client db tb query (some docs)), w)
        | .inr .fails => some (none, m, w)
        | _ => none
    | _ => none
  | .insert collection doc, .inl ch, m, w =>
    (m.collectionAt collection).bind fun c => (m.bsonAt doc).bind fun doc =>
      match ch with
      | .ok => some (true, m, w.modify c.2.1 c.2.2 fun docs => docs ++ [doc])
      | .dbFail => some (false, m, w)
      | _ => none
  | .update collection query update, .inl ch, m, w =>
    (m.collectionAt collection).bind fun c => (m.bsonAt query).bind fun q => (m.bsonAt update).bind fun u =>
      match ch with
      | .ok => some (true, m, w.modify c.2.1 c.2.2 (Keyed.modifyFirst q.selects u.update))
      | .dbFail => some (false, m, w)
      | _ => none
  | .remove collection query, .inl ch, m, w =>
    (m.collectionAt collection).bind fun c => (m.bsonAt query).bind fun q =>
      match ch with
      | .ok => some (true, m, w.modify c.2.1 c.2.2 fun docs => docs.eraseP q.selects)
      | .dbFail => some (false, m, w)
      | _ => none
  | .fork param, .inl ch, m, w =>
    (answer shown (.fork param) ch ⟨[], w.os⟩).map fun x => (x.1, m, { w with os := x.2.os })
  | .execl cmd, .inl ch, m, w =>
    (answer shown (.execl cmd) ch ⟨[], w.os⟩).map fun x => (x.1, m, { w with os := x.2.os })
  | .kill pid sig, .inl ch, m, w =>
    (answer shown (.kill pid sig) ch ⟨[], w.os⟩).map fun x => (x.1, m, { w with os := x.2.os })
  | _, _, _, _ => none

/-! ### Sessions -/

namespace Driver

def database : String := "pull_stream"

def collectionProcess : String := "process"

/-- `MongoAdaptor::connect` -/
def connect (addr : Str) : DriverAct Nat := own (.clientNew (cStr addr))

def connectClose (connect : Nat) : DriverAct Unit := own (.clientDestroy connect)

def collection (connect : Nat) (db tb : String) : DriverAct Nat := own (.clientGetCollection connect db tb)

def collectionRelease (collection : Nat) : DriverAct Unit := own (.collectionDestroy collection)

/-- The cursor of a query that has been sent, how many documents its first batch has, and how many batches follow. -/
def openCursor (collection query : Nat) : DriverAct (Nat × Nat × Nat) := do
  let cursor ← own (.findWithOpts collection query)
  let (n, k) ← shared (.send cursor)
  return (cursor, n, k)

/-- What is put into a `std::string` of a document: the copy of a string that is freed. -/
def textOf (doc : Bson) : DriverAct Text := do
  let str ← own (.asJson doc)
  let text ← own (.copyStr str)
  own (.bsonFree str)
  return text

/-- The turns of the loop of `MongoAdaptor::find` with the documents of a batch. -/
def findLoop (cursor : Nat) : Nat → List Text → DriverAct (List Text)
  | 0, list => return list
  | n + 1, list => do
    let next ← own (.cursorNext cursor)
    match next with
    | none => return list
    | some doc => do
      let str ← textOf doc
      findLoop cursor n (list ++ [str])

/-- The turns with those of further batches. -/
def findMore (cursor : Nat) : Nat → List Text → DriverAct (List Text)
  | 0, list => return list
  | k + 1, list => do
    let (next : Option Nat) ← shared (.getMore cursor)
    match next with
    | none => return list
    | some n => do
      let list ← findLoop cursor n list
      findMore cursor k list

/-- `MongoAdaptor::find`. The last turn of its loop is the one that finds no document. -/
def find (collection query : Nat) : DriverAct (Int × List Text) := do
  let (cursor, n, k) ← openCursor collection query
  let list ← findLoop cursor n []
  let list ← findMore cursor k list
  let _ ← own (.cursorNext cursor)
  return (0, list)

/-- `MongoAdaptor::findOne`, whose loop returns in its first turn. -/
def findOne (collection query : Nat) : DriverAct (Int × Text) := do
  let (cursor, _, _) ← openCursor collection query
  let next ← own (.cursorNext cursor)
  match next with
  | some doc => do
    let item ← textOf doc
    return (ErrorCode.errorOk, item)
  | none => return (ErrorCode.recErrorPorcessInfoNone, none)

/-- What every function of `ServerBiz` on the `process` collection does around its operation. -/
def session {α : Type} (addr : Str) (op : Nat → DriverAct α) : DriverAct α := do
  let connect ← connect addr
  let collection ← collection connect database collectionProcess
  let ret ← op collection
  collectionRelease collection
  connectClose connect
  return ret

/-- A document with a field that is a document of one field: the latter, too, is an object. -/
def appendSub (b : Nat) (key sub : String) (x : Scalar) : DriverAct Nat := do
  let child ← own .bsonNew
  own (.beginDocument b key child)
  own (.append child sub x)
  own (.endDocument b child)
  return child

/-- The query is filled. What is returned is the object of its subdocument. -/
def select (query : Nat) : Query → DriverAct (Option Nat)
  | .all => return none
  | .sid s => do
    own (.append query "sid" (.utf8 s))
    return none
  | .pid p => do
    own (.append query "pid" (.int32 p))
    return none
  | .ppidNe p => do
    let child ← appendSub query "ppid" "$ne" (.int32 p)
    return some child

def destroyChild : Option Nat → DriverAct Unit
  | none => return ()
  | some child => own (.bsonDestroy child)

/-- An operation with a query that is made for it. -/
def withQuery {α : Type} (q : Query) (op : Nat → DriverAct α) : DriverAct α := do
  let query ← own .bsonNew
  let child ← select query q
  let ret ← op query
  own (.bsonDestroy query)
  destroyChild child
  return ret

/-- The session of `add_process_to_cache`. -/
def insert (addr : Str) (d : Doc) : DriverAct Bool :=
  session addr fun collection => do
    let query ← own .bsonNew
    own (.append query "sid" (.utf8 d.sid))
    own (.append query "pid" (.int32 d.pid))
    own (.append query "ppid" (.int32 d.ppid))
    own (.append query "src_url" (.utf8 d.srcUrl))
    own (.append query "dest_url" (.utf8 d.destUrl))
    own (.append query "type" (.int32 d.type))
    own (.append query "status" (.utf8 d.status))
    own (.append query "host" (.utf8 d.host))
    let ok ← shared (.insert collection query)
    own (.bsonDestroy query)
    return ok

/-- The session of `update_process_info`. The document `update` is not destroyed. -/
def update (addr : Str) (q : Query) (pid : Int) : DriverAct Bool :=
  session addr fun collection => withQuery q fun query => do
    let update ← own .bsonNew
    let child ← appendSub update "$set" "pid" (.int32 pid)
    let ok ← shared (.update collection query update)
    own (.bsonDestroy child)
    return ok

/-- How a call is carried out. -/
def carryOut (addr : Str) : (c : Call) → DriverAct (Reply c)
  | .findOne q => do
    let (ret, item) ← session addr fun collection => withQuery q fun query => findOne collection query
    return if ret = ErrorCode.errorOk then some item else none
  | .find q => do
    let (_, list) ← session addr fun collection => withQuery q fun query => find collection query
    return list
  | .insert d => insert addr d
  | .update q pid => update addr q pid
  | .remove q => session addr fun collection => withQuery q fun query => shared (.remove collection query)
  | .fork param => shared (.fork param)
  | .execl cmd => shared (.execl cmd)
  | .kill pid sig => shared (.kill pid sig)
  | .assertFail => shared .assertFail

end Driver

/-! ### The service -/

/-- A thread inside a function: what is left of it, and its objects of the driver. -/
structure DriverThread where
  prog : DriverAct Int
  mem : DriverMem

structure DriverSys extends Host DriverThread where
  docs : String → String → List Bson

namespace DriverSys

def boot (workerNum : Int) (docs : String → String → List Bson) (os : Os) : DriverSys where
  toHost := (Sys.boot workerNum [] os).toHost
  docs := docs

/-- The service without the server. -/
def frame (s : DriverSys) : Sys DriverThread := { toHost := s.toHost, coll := [] }

def setFrame (s : DriverSys) (f : Sys DriverThread) : DriverSys := { s with toHost := f.toHost }

end DriverSys

/-- What `pop`, `abort` and `detectEnd` look at is whether the thread has returned, or fails its assertion; the call
of a thread that is in a session is some call. -/
def driverThreads (env : Env) (addr : Str) : Threads DriverThread where
  view t :=
    match t.prog with
    | .ret rtn => .ret rtn
    | .call (.inr .assertFail) _ => .call .assertFail nofun
    | .call _ _ => .call (.execl []) fun _ => t
  dispatch ev := ⟨(ServerBiz.dispatch env ev).subst (Driver.carryOut addr), []⟩
  detect := ⟨(ServerBiz.processAliveDetect env).subst (Driver.carryOut addr), []⟩
  shown := env.shown

/-- A thread makes an operation on its own objects, or what `Label` says happens, a call being an operation that is
shared; or a query is answered in more than one batch. -/
inductive DriverLabel where
  | own (τ : Tid)
  | label (l : Label)
  | batch (τ : Tid) (b : Batch)

def DriverLabel.label? : DriverLabel → Option Label
  | .label l => some l
  | _ => none

/-- A query is answered in one batch. -/
def DriverLabel.oneBatch : DriverLabel → Bool
  | .batch _ _ => false
  | _ => true

/-- A thread makes an operation that is shared. -/
def DriverSys.share (env : Env) (τ : Tid) (x : Choice ⊕ Batch) (s : DriverSys) : Option DriverSys :=
  match s.frame.thread τ with
  | some ⟨.call (.inr op) k, m⟩ =>
    (serverAnswer env.shown op x m ⟨s.docs, s.os⟩).map fun y =>
      { s.setFrame (s.frame.setThread τ ⟨k y.1, y.2.1⟩) with docs := y.2.2.docs, os := y.2.2.os }
  | _ => none

/-- One step. What is not an operation of a thread happens as in `step`. -/
def driverStep (env : Env) (addr : Str) (l : DriverLabel) (s : DriverSys) : Option DriverSys :=
  match l with
  | .own τ =>
    if s.aborted then none
    else match s.frame.thread τ with
      | some ⟨.call (.inl op) k, m⟩ =>
        (driverOwn env.shown op m).map fun y => s.setFrame (s.frame.setThread τ ⟨k y.1, y.2⟩)
      | _ => none
  | .label (.call τ ch) => if s.aborted then none else s.share env τ (.inl ch)
  | .batch τ b => if s.aborted then none else s.share env τ (.inr b)
  | .label l => (step (driverThreads env addr) l s.frame).map s.setFrame

end PullStream
