import PullStream.App.Common
import PullStream.Base.Prog
/-!
# Records of hosts

The functions on the `host` collection: those of `app/serverBiz.cpp`, by which a running `pull` registers
its host, and those of `pulld`. A record has two fields. The only answer anybody uses is whether a query
yielded a document, and a failed query yields none.
-/

namespace PullStream

/-- A document of the `host` collection. -/
structure HostDoc where
  host : Str
  port : Int
  deriving DecidableEq, Repr

inductive HostCall where
  | findOne (host : Str)
  | insert (d : HostDoc)
  /-- Removal of the first match. -/
  | remove (host : Str)
  /-- `_host = host; _port = port;` -/
  | setHost (host : Str) (port : Int)
  deriving DecidableEq

abbrev HostReply : HostCall → Type
  | .findOne _ => Option HostDoc
  | .insert _ | .remove _ => Bool
  | .setHost _ _ => Unit

abbrev HostAct := Prog HostCall HostReply

abbrev invokeHost (c : HostCall) : HostAct (HostReply c) := Prog.perform c

/-- What a call does and answers when it succeeds (`ok`), and when it fails. -/
def answerHost (ok : Bool) : (c : HostCall) → List HostDoc → HostReply c × List HostDoc
  | .findOne host, coll => (if ok then coll.find? fun d => d.host = host else none, coll)
  | .insert d, coll => (ok, if ok then coll ++ [d] else coll)
  | .remove host, coll => (ok, if ok then coll.eraseP fun d => d.host = host else coll)
  | .setHost _ _, coll => ((), coll)

namespace MongoAdaptor

def findOneHost (host : Str) : HostAct Int := do
  match ← invokeHost (.findOne host) with
  | some _ => return ErrorCode.errorOk
  | none => return ErrorCode.recErrorPorcessInfoNone

end MongoAdaptor

namespace ServerBiz

def isHostExist (host : Str) : HostAct Bool := do
  let ret ← MongoAdaptor.findOneHost (cStr host)
  return ret = ErrorCode.errorOk

def registerHostToCache (host : Str) (port : Int) : HostAct Int := do
  invokeHost (.setHost host port)
  if ← invokeHost (.insert ⟨cStr host, port⟩) then
    return ErrorCode.errorOk
  else
    return ErrorCode.recErrorMongodb

def hostRegister (host : Str) (port : Int) : HostAct Bool := do
  if !(← isHostExist host) then
    let _ ← registerHostToCache host port
    return true
  else
    return false

/-- `remove_host`, of the `_host` of the service. -/
def removeHost (host : Str) : HostAct Int := do
  if ← invokeHost (.remove (cStr host)) then
    return ErrorCode.errorOk
  else
    return ErrorCode.recErrorMongodb

end ServerBiz

namespace Pulld

def isHostExist (host : Str) : HostAct Bool := do
  let ret ← MongoAdaptor.findOneHost (cStr host)
  return ret = ErrorCode.errorOk

def removeHost (host : Str) : HostAct Int := do
  if ← invokeHost (.remove (cStr host)) then
    return ErrorCode.errorOk
  else
    return ErrorCode.recErrorMongodb

end Pulld

/-! ### What is left of `host_register` after a call -/

namespace ServerBiz

/-- `host_register` after it found its host absent. -/
def registerAbsent (host : Str) (port : Int) : HostAct Bool := do
  let _ ← registerHostToCache host port
  return true

/-- `host_register` before the insert. -/
def registerInsert (host : Str) (port : Int) : HostAct Bool :=
  .call (.insert ⟨cStr host, port⟩) fun _ => .ret true

theorem hostRegister_eq (host : Str) (port : Int) :
    hostRegister host port = .call (.findOne (cStr host)) fun found =>
      if found.isSome then .ret false else registerAbsent host port := by
  refine congrArg (Prog.call _) (funext fun found => ?_)
  cases found <;> rfl

theorem registerAbsent_eq (host : Str) (port : Int) :
    registerAbsent host port = .call (.setHost host port) fun _ => registerInsert host port := by
  refine congrArg (Prog.call _) (funext fun _ => congrArg (Prog.call _) (funext fun (ok : Bool) => ?_))
  cases ok <;> rfl

end ServerBiz

end PullStream
