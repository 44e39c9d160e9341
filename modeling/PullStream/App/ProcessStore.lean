import PullStream.App.Call
/-!
# Records of streams (`MongoAdaptor`, and the store functions of `ServerBiz`)

The functions of `app/mongoCommonApi.cpp` on the `process` collection, and the functions of
`app/serverBiz.cpp` that read and write it. Opening and closing the connection leaves no trace in the
collection and is not modelled, nor is logging.
-/

namespace PullStream

namespace MongoAdaptor

/-- `MongoAdaptor::findOne`: a failed query and an empty result give the same code. -/
def findOne (query : Query) : Act (Int × Text) := do
  match ← invoke (.findOne query) with
  | some item => return (ErrorCode.errorOk, item)
  | none => return (ErrorCode.recErrorPorcessInfoNone, none)

def find (query : Query) : Act (Int × List Text) := do
  let list ← invoke (.find query)
  return (0, list)

def insert (query : Doc) : Act Bool := invoke (.insert query)

def update (query : Query) (pid : Int) : Act Bool := invoke (.update query pid)

def remove (query : Query) : Act Bool := invoke (.remove query)

end MongoAdaptor

namespace ServerBiz

/-- The body of the `try` block of `parser`: the fields are assigned one by one, so an exception leaves
those before it assigned. -/
def parserFields (root : Root) : ExceptT Str (StateM ProcessInfo) Unit := do
  let srcUrl ← ExceptT.mk (pure (root.getString "src_url"))
  modify fun info => { info with srcUrl }
  let destUrl ← ExceptT.mk (pure (root.getString "dest_url"))
  modify fun info => { info with destUrl }
  let sid ← ExceptT.mk (pure (root.getString "sid"))
  modify fun info => { info with sid }
  let type ← ExceptT.mk (pure (root.getInt "type"))
  modify fun info => { info with type }
  let status ← ExceptT.mk (pure (root.getString "status"))
  modify fun info => { info with status }
  let host ← ExceptT.mk (pure (root.getString "host"))
  modify fun info => { info with host }
  let pid ← ExceptT.mk (pure (root.getInt "pid"))
  modify fun info => { info with pid }
  let ppid ← ExceptT.mk (pure (root.getInt "ppid"))
  modify fun info => { info with ppid }

/-- `ServerBiz::parser`: the code returned and what is left in `*info`. -/
def parser (item : Text) (info : ProcessInfo) : Int × ProcessInfo :=
  match item with
  | none => (ErrorCode.recErrorJsonParser, info)
  | some root =>
    match (parserFields root).run info with
    | (.ok _, info) => (ErrorCode.errorOk, info)
    | (.error _, info) => (ErrorCode.recErrorJsonParserException, info)

@[simp] theorem parser_text (shown : String → Str → Str) (d : Doc) (info : ProcessInfo) :
    parser (d.text shown) info = (ErrorCode.errorOk.val, d.seen shown) := rfl

/-- The document `add_process_to_cache` builds. -/
def processDoc (env : Env) (info : ProcessInfo) : Doc where
  sid := cStr info.sid
  pid := info.pid
  ppid := env.pid
  srcUrl := cStr info.srcUrl
  destUrl := cStr info.destUrl
  type := info.type
  status := lit "active"
  host := cStr info.host

def addProcessToCache (env : Env) (info : ProcessInfo) : Act Int := do
  if ← MongoAdaptor.insert (processDoc env info) then
    return ErrorCode.errorOk
  else
    return ErrorCode.recErrorMongodb

def updateProcessInfo (param : ProcessInfo) : Act Int := do
  if ← MongoAdaptor.update (.sid (cStr param.sid)) param.pid then
    return ErrorCode.errorOk
  else
    return ErrorCode.recErrorMongodb

/-- Both overloads of `is_process_exist`, which differ in the query: whether a record was found, and
what is left in `info`. -/
def isProcessExist (query : Query) (info : ProcessInfo) : Act (Bool × ProcessInfo) := do
  let (ret, item) ← MongoAdaptor.findOne query
  if ret = ErrorCode.errorOk then
    return (true, (parser item info).2)
  else
    return (false, info)

/-- `get_process_info`, `NULL` being `none`. -/
def getProcessInfo (env : Env) (sid : Str) : Act (Option ProcessInfo) := do
  let (ret, item) ← MongoAdaptor.findOne (.sid (cStr sid))
  if ret = ErrorCode.errorOk then
    return some (parser item env.newInfo).2
  else
    return none

def removeProcessByStream (sid : Str) : Act Int := do
  if ← MongoAdaptor.remove (.sid (cStr sid)) then
    return ErrorCode.errorOk
  else
    return ErrorCode.recErrorMongodb

/-- The loops over `vec` in `find_all_process` and `find_orphan_process` decode into one variable
`item`, which keeps its fields from one document to the next. -/
def decodeAll : List Text → ProcessInfo → List ProcessInfo
  | [], _ => []
  | text :: vec, item => (parser text item).2 :: decodeAll vec (parser text item).2

theorem decodeAll_text (shown : String → Str → Str) (docs : List Doc) (item : ProcessInfo) :
    decodeAll (docs.map (Doc.text shown)) item = docs.map (Doc.seen shown) := by
  induction docs generalizing item with
  | nil => rfl
  | cons d docs ih => simp [decodeAll, ih]

def findAllProcess (env : Env) : Act (Int × List ProcessInfo) := do
  let (ret, vec) ← MongoAdaptor.find .all
  return (ret, decodeAll vec env.newInfo)

def findOrphanProcess (env : Env) : Act (Int × List ProcessInfo) := do
  let (ret, vec) ← MongoAdaptor.find (.ppidNe env.pid)
  return (ret, (decodeAll vec env.newInfo).filter fun item => item.ppid ≠ env.pid)

end ServerBiz

end PullStream
