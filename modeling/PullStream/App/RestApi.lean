import PullStream.App.ServerBiz
/-!
# The HTTP interface (`app/rest_api.cpp`)

A handler is a program over `HttpCall`, the libevent calls it makes and `put_data`. The handlers `start`,
`stop`, `start_i` and `stop_i` have one shape, `handle`: they look at the body, parse it and read its
members inside a `try` block, put an event, and reply; they differ in the members they read and in their
replies. `check_alive_i` only replies.

`Web T` is a host together with its event loop: the requests still to come and the handler that is
running. The loop runs one handler at a time, call by call, while the threads of the host go on
(`webStep`).
-/

namespace PullStream

/-- An `evbuffer *`, `NULL` being `none`. -/
abbrev Buffer := Option Nat

inductive HttpCall where
  | evbufferNew
  | evbufferAddPrintf (buffer : Buffer) (text : Str)
  | evhttpSendReply (code : Int) (reason : Str) (buffer : Buffer)
  | evbufferFree (buffer : Buffer)
  | putData (ev : Event)
  deriving DecidableEq

abbrev HttpReply : HttpCall → Type
  | .evbufferNew => Buffer
  | .putData _ => Int
  | _ => Unit

abbrev Http := Prog HttpCall HttpReply

namespace RestApi

/-- What a handler works with: the service's surroundings, the reader, and the `host` of the `app_data`
that `run` registers it with. `parse` may reject a text or throw. -/
structure Rest where
  env : Env
  parse : Str → Except Str Text
  host : Str

/-- A reply: the HTTP status and reason, and the two fields of the JSON text sent. -/
structure Exit where
  code : Int
  reason : Str
  ret : Int
  msg : Str

def Exit.output (e : Exit) : Str :=
  lit "\x7b\"ret\":" ++ lit (toString e.ret) ++ lit ",\"" ++ lit "msg\":\"" ++ e.msg ++ lit "\"\x7d"

def httpOk : Int := 200

/-- `INPUT_NO_MATCH`: `ret` still has its initial value. -/
def inputNoMatch : Exit := ⟨400, lit "paramter not match", 0, lit "input not match"⟩

/-- `TRANSLATE_TYPE_UNSUPPORT` -/
def translateTypeUnsupport : Exit := ⟨400, lit "paramter not match", 0, lit "translate type unsupport"⟩

/-- `STREAM_EXIST` -/
def streamExist (ret : Int) : Exit := ⟨403, lit "stream exist", ret, lit "stream exist"⟩

/-- The `catch` block. The reason is the format string itself. -/
def exception (what : Str) : Exit := ⟨403, lit "%s", 403, cStr what⟩

/-- How a `try` block ends when nothing is thrown. -/
inductive Parsed where
  | goto (e : Exit)
  | accept (ev : Event)

/-- The lines at the end of every path. -/
def reply (buffer : Buffer) (e : Exit) : Http Unit := do
  let _ ← Prog.perform (.evbufferAddPrintf buffer (cStr e.output))
  let _ ← Prog.perform (.evhttpSendReply e.code e.reason buffer)
  let _ ← Prog.perform (.evbufferFree buffer)
  return ()

/-- The `try` block, `fields` being what it does with the root. -/
def tryParse (rest : Rest) (fields : Root → Except Str Parsed) (body : Str) : Except Str Parsed := do
  match ← rest.parse (cStr body) with
  | none => return .goto inputNoMatch
  | some root => fields root

/-- The common text of the four handlers. `body` is `EVBUFFER_DATA(req->input_buffer)`, and `accepted` the
reply that follows on the value returned by `put_data`. -/
def handle (rest : Rest) (bodyNull : Exit) (fields : Root → Except Str Parsed) (accepted : Int → Exit)
    (body : Option Str) : Http Unit := do
  let buffer ← Prog.perform .evbufferNew
  match body with
  | none => reply buffer bodyNull
  | some body =>
    match tryParse rest fields body with
    | .error what => reply buffer (exception what)
    | .ok (.goto e) => reply buffer e
    | .ok (.accept ev) =>
      let ret ← Prog.perform (.putData ev)
      reply buffer (accepted ret)

def startFields (rest : Rest) (root : Root) : Except Str Parsed := do
  let srcUrl ← root.getString "src"
  let destUrl ← root.getString "dest"
  let sid ← root.getString "sid"
  let type ← root.getInt "type"
  if srcUrl = [] then
    return .goto inputNoMatch
  else if destUrl = [] then
    return .goto inputNoMatch
  else if sid = [] then
    return .goto inputNoMatch
  else if TranslateType.rtmp2Rtmp.val ≠ type ∧ TranslateType.rtsp2Rtmp.val ≠ type then
    return .goto translateTypeUnsupport
  else
    let process :=
      { rest.env.newInfo with srcUrl, destUrl, sid, type, status := lit "active", host := rest.host }
    return .accept ⟨process, .createProcess⟩

def stopFields (rest : Rest) (root : Root) : Except Str Parsed := do
  let sid ← root.getString "sid"
  if sid = [] then
    return .goto inputNoMatch
  else
    return .accept ⟨{ rest.env.newInfo with sid }, .removeProcess⟩

def startIFields (rest : Rest) (root : Root) : Except Str Parsed := do
  let sid ← root.getString "sid"
  let type ← root.getInt "type"
  return .accept ⟨{ rest.env.newInfo with sid, type }, .reloadProcess⟩

def stopIFields (rest : Rest) (root : Root) : Except Str Parsed := do
  let pid ← root.getInt "pid"
  return .accept ⟨{ rest.env.newInfo with pid }, .terminateProcess⟩

def start (rest : Rest) : Option Str → Http Unit :=
  handle rest ⟨403, lit "http body null", 400, lit "http post body null"⟩ (startFields rest) fun ret =>
    if ErrorCode.errorStreamExist.val = ret then streamExist ret else ⟨httpOk, lit "OK", 0, lit "SUCCESS"⟩

def stop (rest : Rest) : Option Str → Http Unit :=
  handle rest ⟨403, lit "http body null", 403, lit "http post body null"⟩ (stopFields rest) fun _ =>
    ⟨httpOk, lit "OK", 0, lit "SUCCESS"⟩

def startI (rest : Rest) : Option Str → Http Unit :=
  handle rest ⟨400, lit "http body null", 400, lit "http post body null"⟩ (startIFields rest) fun _ =>
    ⟨httpOk, lit "OK", 0, lit "ok"⟩

def stopI (rest : Rest) : Option Str → Http Unit :=
  handle rest ⟨400, lit "http body null", 400, lit "http post body null"⟩ (stopIFields rest) fun _ =>
    ⟨httpOk, lit "OK", 0, lit "ok"⟩

/-- `buffer` is never set. -/
def checkAliveI : Http Unit := reply none ⟨httpOk, lit "OK", 0, lit "alive"⟩

end RestApi

/-! ### The event loop -/

open RestApi

/-- The paths registered by `run`. -/
inductive Route where
  | start
  | stop
  | startI
  | stopI
  | checkAliveI
  deriving DecidableEq, Repr

structure Request where
  route : Route
  body : Option Str
  deriving DecidableEq, Repr

def Request.handler (rest : Rest) (r : Request) : Http Unit :=
  match r.route with
  | .start => RestApi.start rest r.body
  | .stop => RestApi.stop rest r.body
  | .startI => RestApi.startI rest r.body
  | .stopI => RestApi.stopI rest r.body
  | .checkAliveI => RestApi.checkAliveI

structure Web (T : Type) where
  sys : Sys T
  requests : List Request
  handler : Option (Http Unit)

/-- What happens next at a host with its event loop: the next request is taken, the handler makes its
next call (where `evbuffer_new` returns `buffer`), it returns, or the rest of the host moves. -/
inductive WebLabel where
  | accept
  | http (buffer : Buffer)
  | finish
  | host (l : Label)
  deriving DecidableEq, Repr

section

variable {T : Type}

/-- What a handler's call does and answers. Events are put by handlers only. There is no answer to a call
that is given a `NULL` buffer: what libevent does then is undefined. -/
def answerHttp (I : Threads T) (buffer : Buffer) : (c : HttpCall) → Sys T → Option (HttpReply c × Sys T)
  | .evbufferNew, s => some (buffer, s)
  | .evbufferAddPrintf b _, s | .evhttpSendReply _ _ b, s | .evbufferFree b, s =>
    if b.isSome then some ((), s) else none
  | .putData ev, s => (step I (.put ev) s).map fun s' => (ErrorCode.errorOk.val, s')

/-- One step of the event loop of a service that has not aborted. -/
def loopStep (rest : Rest) (I : Threads T) (l : WebLabel) (w : Web T) : Option (Web T) :=
  match l, w.handler with
  | .accept, none =>
    match w.requests with
    | [] => none
    | r :: requests => some { w with requests, handler := some (r.handler rest) }
  | .http buffer, some (.call c k) =>
    (answerHttp I buffer c w.sys).map fun x => { w with sys := x.2, handler := some (k x.1) }
  | .finish, some (.ret _) => some { w with handler := none }
  | _, _ => none

def webStep (rest : Rest) (I : Threads T) (l : WebLabel) (w : Web T) : Option (Web T) :=
  match l with
  | .host (.put _) => none
  | .host l => (step I l w.sys).map fun sys => { w with sys }
  | l => if w.sys.aborted then none else loopStep rest I l w

def Web.boot (workerNum : Int) (coll : List Doc) (os : Os) (requests : List Request) : Web T :=
  ⟨Sys.boot workerNum coll os, requests, none⟩

end

end PullStream
