import PullStream.Control.Requests
import PullStream.Service.Handlers
/-!
# The event loop as a function of its requests

`Request.response` says what the service makes of a request: the event that is put, if one is, and the reply. It is a
function of the request alone. The handlers come to it by way of a buffer, a `try` block and `put_data`, call by call,
while workers and scheduler go on. `Served` is the event loop with a record of the requests taken and of the replies
sent, each with the text that was in the buffer.

The event loop refines the function (`requests_answered`): the requests are taken in order, and between two of them the
events that have been accepted and the replies that have been sent are those of the requests taken, in order, one
reply for each; what a request is answered does not depend on what the service is doing. With the law of the
dispatcher this gives the way of a request to its worker.
-/

namespace PullStream

open Function Transition RestApi Lane

/-! ### What a request comes to -/

/-- What is put and replied where a `try` block ends, `msg` being the text of the success. -/
def respond (msg : Str) : Parsed → Option Event × Exit
  | .goto e => (none, e)
  | .accept ev => (some ev, ⟨httpOk, lit "OK", 0, msg⟩)

/-- The event that is put for a request, and the reply to it. -/
def Request.response (rest : Rest) (r : Request) : Option Event × Exit :=
  match r.route with
  | .start => respond (lit "SUCCESS")
      (ending rest ⟨403, lit "http body null", 400, lit "http post body null"⟩ (startFields rest) r.body)
  | .stop => respond (lit "SUCCESS")
      (ending rest ⟨403, lit "http body null", 403, lit "http post body null"⟩ (stopFields rest) r.body)
  | .startI => respond (lit "ok")
      (ending rest ⟨400, lit "http body null", 400, lit "http post body null"⟩ (startIFields rest) r.body)
  | .stopI => respond (lit "ok")
      (ending rest ⟨400, lit "http body null", 400, lit "http post body null"⟩ (stopIFields rest) r.body)
  | .checkAliveI => (none, ⟨httpOk, lit "OK", 0, lit "alive"⟩)

/-- A reply that was sent. -/
structure Sent where
  code : Int
  reason : Str
  text : Str
  deriving DecidableEq, Repr

def RestApi.Exit.sent (e : Exit) : Sent := ⟨e.code, e.reason, cStr e.output⟩

/-! ### The event loop with its records -/

/-- The event loop, the requests that it has taken, what is in the buffer of the handler, and the replies sent. -/
structure Served (T : Type) where
  web : Web T
  taken : List Request
  printed : Str
  sent : List Sent

section

variable {T : Type}

namespace Served

def boot (workerNum : Int) (coll : List Doc) (os : Os) (requests : List Request) : Served T :=
  ⟨Web.boot workerNum coll os requests, [], [], []⟩

/-- The records after a step of the event loop. -/
def note (d : Served T) (l : WebLabel) (web : Web T) : Served T :=
  match l, d.web.handler with
  | .accept, _ => { d with web, taken := d.taken ++ d.web.requests.head?.toList, printed := [] }
  | .http _, some (.call (.evbufferAddPrintf _ text) _) => { d with web, printed := d.printed ++ text }
  | .http _, some (.call (.evhttpSendReply code reason _) _) =>
    { d with web, sent := d.sent ++ [⟨code, reason, d.printed⟩] }
  | _, _ => { d with web }

end Served

def servedStep (rest : Rest) (I : Threads T) (l : WebLabel) (d : Served T) : Option (Served T) :=
  (webStep rest I l d.web).map (d.note l)

theorem Served.web_note (d : Served T) (l : WebLabel) (web : Web T) : (d.note l web).web = web := by
  unfold Served.note
  split <;> rfl

theorem web_servedStep {rest : Rest} {I : Threads T} (l : WebLabel) (d : Served T) :
    webStep rest I l d.web = (servedStep rest I l d).map Served.web := by
  simp only [servedStep, Option.map_map]
  cases webStep rest I l d.web with
  | none => rfl
  | some web => exact congrArg some (d.web_note l web).symm

end

/-! ### The stages of a handler -/

/-- Where the handler of a request stands: what is left of it, the event that it has put, what it has written to the
buffer, and the reply that it has sent. -/
inductive Stage (rest : Rest) (r : Request) : Http Unit → Option Event → Str → Option Sent → Prop
  | ready : Stage rest r (r.handler rest) none [] none
  | put {ev : Event} {k : Int → Http Unit} {buffer : Buffer} (hev : (r.response rest).1 = some ev)
      (hk : k ErrorCode.errorOk.val = reply buffer (r.response rest).2) :
      Stage rest r (.call (.putData ev) k) none [] none
  | replying (buffer : Buffer) : Stage rest r (reply buffer (r.response rest).2) (r.response rest).1 [] none
  | sending {k : Unit → Http Unit} {buffer : Buffer} (hk : k () = .call (.evbufferFree buffer) fun _ => .ret ()) :
      Stage rest r (.call (.evhttpSendReply (r.response rest).2.code (r.response rest).2.reason buffer) k)
        (r.response rest).1 (cStr (r.response rest).2.output) none
  | sent {p : Http Unit} {text : Str} (hp : p = .ret () ∨ ∃ buffer, p = .call (.evbufferFree buffer) fun _ => .ret ()) :
      Stage rest r p (r.response rest).1 text (some (r.response rest).2.sent)

section

variable {rest : Rest} {bodyNull : Exit} {fields : Root → Except Str Parsed} {accepted : Int → Exit}
  {body : Option Str} {r : Request}

theorem handle_cases (rest : Rest) (bodyNull : Exit) (fields : Root → Except Str Parsed) (accepted : Int → Exit)
    (body : Option Str) : ∃ k, handle rest bodyNull fields accepted body = .call .evbufferNew k ∧ ∀ buffer,
      (∃ e, ending rest bodyNull fields body = .goto e ∧ k buffer = reply buffer e) ∨
        ∃ ev, ending rest bodyNull fields body = .accept ev ∧
          k buffer = .call (.putData ev) fun ret => reply buffer (accepted ret) := by
  refine ⟨_, rfl, fun buffer => ?_⟩
  cases body with
  | none => exact .inl ⟨bodyNull, rfl, rfl⟩
  | some text =>
    dsimp only [Prog.bind, ending]
    rcases tryParse rest fields text with what | (e | ev)
    · exact .inl ⟨_, rfl, rfl⟩
    · exact .inl ⟨e, rfl, rfl⟩
    · exact .inr ⟨ev, rfl, rfl⟩

theorem handler_cases (rest : Rest) (r : Request) :
    (r.handler rest = reply none (r.response rest).2 ∧ (r.response rest).1 = none) ∨
      ∃ k, r.handler rest = .call .evbufferNew k ∧ ∀ buffer,
        ((r.response rest).1 = none ∧ k buffer = reply buffer (r.response rest).2) ∨
          ∃ ev k', (r.response rest).1 = some ev ∧ k buffer = .call (.putData ev) k' ∧
            k' ErrorCode.errorOk.val = reply buffer (r.response rest).2 := by
  have hcommon : ∀ {bodyNull : Exit} {fields : Root → Except Str Parsed} {accepted : Int → Exit} {msg : Str},
      accepted ErrorCode.errorOk.val = ⟨httpOk, lit "OK", 0, msg⟩ →
      r.handler rest = handle rest bodyNull fields accepted r.body →
      r.response rest = respond msg (ending rest bodyNull fields r.body) →
      ∃ k, r.handler rest = .call .evbufferNew k ∧ ∀ buffer,
        ((r.response rest).1 = none ∧ k buffer = reply buffer (r.response rest).2) ∨
          ∃ ev k', (r.response rest).1 = some ev ∧ k buffer = .call (.putData ev) k' ∧
            k' ErrorCode.errorOk.val = reply buffer (r.response rest).2 := by
    intro bodyNull fields accepted msg hok hhandler hresponse
    obtain ⟨k, hk, hcases⟩ := handle_cases rest bodyNull fields accepted r.body
    refine ⟨k, hhandler.trans hk, fun buffer => ?_⟩
    rw [hresponse]
    obtain ⟨e, he, hb⟩ | ⟨ev, hev, hb⟩ := hcases buffer
    · rw [he]
      exact .inl ⟨rfl, hb⟩
    · rw [hev]
      refine .inr ⟨ev, _, rfl, hb, ?_⟩
      rw [hok]
      rfl
  obtain ⟨route, body⟩ := r
  cases route with
  | start | stop | startI | stopI => exact .inr (hcommon rfl rfl rfl)
  | checkAliveI => exact .inl ⟨rfl, rfl⟩

end

/-! ### What a call leaves in the records -/

namespace HttpCall

def event? : HttpCall → Option Event
  | .putData ev => some ev
  | _ => none

def text : HttpCall → Str
  | .evbufferAddPrintf _ text => text
  | _ => []

/-- The reply that a call sends, when `printed` is in the buffer. -/
def sends? (printed : Str) : HttpCall → Option Sent
  | .evhttpSendReply code reason _ => some ⟨code, reason, printed⟩
  | _ => none

end HttpCall

section

variable {T : Type} {I : Threads T} {rest : Rest} {r : Request} {p : Http Unit} {o : Option Event} {printed : Str}
  {answer : Option Sent} {c : HttpCall} {b : Buffer} {s : Sys T}

/-- **A call of a handler leads from one stage to the next.** -/
theorem Stage.http {k : HttpReply c → Http Unit} {x : HttpReply c × Sys T}
    (h : Stage rest r p o printed answer) (hp : p = .call c k) (hx : answerHttp I b c s = some x) :
    Stage rest r (k x.1) (c.event?.or o) (printed ++ c.text) ((c.sends? printed).or answer) ∧
      (c.event?.isSome = true → o = none) ∧ ((c.sends? printed).isSome = true → answer = none) := by
  cases h with
  | ready =>
    obtain ⟨hhandler, hnone⟩ | ⟨k', hhandler, hcases⟩ := handler_cases rest r
    · -- `check_alive_i` writes to no buffer
      rw [hhandler] at hp
      cases hp
      cases hx
    · rw [hhandler] at hp
      cases hp
      cases hx
      refine ⟨?_, nofun, nofun⟩
      obtain ⟨hnone, hb⟩ | ⟨ev, k', hev, hb, hk⟩ := hcases b
      · dsimp only
        rw [hb]
        exact hnone ▸ .replying b
      · dsimp only
        rw [hb]
        exact .put hev hk
  | @put ev k₀ buffer hev hk =>
    cases hp
    obtain ⟨s', hs', rfl⟩ := Option.map_eq_some_iff.mp hx
    refine ⟨?_, fun _ => rfl, nofun⟩
    dsimp only
    have hnext : Stage rest r (reply buffer (r.response rest).2) (r.response rest).1 [] none := .replying buffer
    rw [hk]
    rwa [hev] at hnext
  | replying buffer =>
    cases hp
    exact ⟨.sending rfl, nofun, nofun⟩
  | @sending k₀ buffer hk =>
    cases hp
    exact ⟨.sent (.inr ⟨buffer, hk⟩), nofun, fun _ => rfl⟩
  | sent hp' =>
    obtain rfl | ⟨buffer, rfl⟩ := hp'
    · cases hp
    · cases hp
      exact ⟨.sent (.inl rfl), nofun, nofun⟩

theorem Stage.over (h : Stage rest r (.ret ()) o printed answer) :
    o = (r.response rest).1 ∧ answer = some (r.response rest).2.sent := by
  generalize hp : (Prog.ret () : Http Unit) = p at h
  cases h with
  | ready =>
    obtain ⟨hhandler, -⟩ | ⟨k, hhandler, -⟩ := handler_cases rest r
    all_goals
      rw [hhandler] at hp
      cases hp
  | put | replying | sending => cases hp
  | sent => exact ⟨rfl, rfl⟩

/-! ### The records and the requests taken -/

/-- Between two requests the records are those of the requests taken, and while a handler runs those of the requests
before it and of the stage it has reached. -/
structure Answering (rest : Rest) (rs : List Request) (d : Served T) : Prop where
  requests : rs = d.taken ++ d.web.requests
  idle : d.web.handler = none → d.web.sys.accepted = d.taken.filterMap (fun r => (r.response rest).1) ∧
    d.sent = d.taken.map fun r => (r.response rest).2.sent
  busy : ∀ p, d.web.handler = some p → ∃ before r o answer,
    d.taken = before ++ [r] ∧ Stage rest r p o d.printed answer ∧
    d.web.sys.accepted = before.filterMap (fun r => (r.response rest).1) ++ o.toList ∧
    d.sent = (before.map fun r => (r.response rest).2.sent) ++ answer.toList

theorem accepted_of_step {l : Label} {u : Sys T} (h : step I l s = some u) (hl : ∀ ev, l ≠ .put ev) :
    u.accepted = s.accepted := by
  cases l with
  | put ev => exact absurd rfl (hl ev)
  | front i =>
    obtain ⟨-, -, -, rfl⟩ := step_front h
    rfl
  | call τ ch =>
    obtain ⟨-, -, -, -, -, -, -, -, rfl⟩ := step_call h
    cases τ <;> rfl
  | pop i =>
    obtain ⟨-, -, -, -, -, -, -, -, rfl⟩ := step_pop h
    rfl
  | abort i =>
    obtain ⟨-, rfl⟩ := step_abort h
    rfl
  | detect =>
    obtain ⟨-, rfl⟩ := step_detect h
    rfl
  | detectEnd =>
    obtain ⟨-, rfl⟩ := step_detectEnd h
    rfl
  | die p =>
    obtain ⟨-, rfl⟩ := step_die h
    rfl
  | appear p =>
    obtain ⟨-, rfl⟩ := step_appear h
    rfl

theorem accepted_of_answerHttp {x : HttpReply c × Sys T} (h : answerHttp I b c s = some x) :
    x.2.accepted = s.accepted ++ c.event?.toList := by
  cases c with
  | putData ev =>
    obtain ⟨s', hs', rfl⟩ := Option.map_eq_some_iff.mp h
    obtain ⟨n, w, -, -, rfl⟩ := step_put hs'
    rfl
  | evbufferNew =>
    cases h
    exact (List.append_nil _).symm
  | evbufferAddPrintf | evhttpSendReply | evbufferFree =>
    simp only [answerHttp] at h
    split_ifs at h
    cases h
    exact (List.append_nil _).symm

theorem handler_of_accept {w w' : Web T} (h : webStep rest I .accept w = some w') : w.handler = none := by
  cases hh : w.handler with
  | none => rfl
  | some p =>
    replace h : (if w.sys.aborted then none else loopStep rest I .accept w) = some w' := h
    simp only [loopStep, hh] at h
    split_ifs at h

theorem handler_of_finish {w w' : Web T} (h : webStep rest I .finish w = some w') : w.handler = some (.ret ()) := by
  replace h : (if w.sys.aborted then none else loopStep rest I .finish w) = some w' := h
  split_ifs at h
  cases hh : w.handler with
  | none => simp [loopStep, hh] at h
  | some p =>
    cases p with
    | ret a => rfl
    | call c k => simp [loopStep, hh] at h

theorem note_http {d : Served T} {k : HttpReply c → Http Unit} (h : d.web.handler = some (.call c k)) (web : Web T) :
    d.note (.http b) web =
      { d with web, printed := d.printed ++ c.text, sent := d.sent ++ (c.sends? d.printed).toList } := by
  cases c <;> simp [Served.note, h, HttpCall.text, HttpCall.sends?]

theorem toList_or {α : Type} {x o : Option α} (h : x.isSome = true → o = none) :
    (x.or o).toList = o.toList ++ x.toList := by
  cases x with
  | none => simp
  | some a => simp [h rfl]

theorem filterMap_singleton {α β : Type} (f : α → Option β) (a : α) : [a].filterMap f = (f a).toList := by
  cases h : f a <;> simp [h]

/-- **A step keeps the records in step with the requests.** -/
theorem Answering.step {rs : List Request} {d d' : Served T} {l : WebLabel} (h : Answering rest rs d)
    (hstep : servedStep rest I l d = some d') : Answering rest rs d' := by
  obtain ⟨web, hweb, rfl⟩ := Option.map_eq_some_iff.mp hstep
  obtain ⟨r, rfl, hr, hh, hs⟩ | ⟨c, k, b, x, rfl, hc, hx, hs, hh, hr⟩ | ⟨rfl, hh, hs, hr⟩ |
    ⟨l, rfl, hne, hs, hh, hr⟩ := webStep_cases hweb
  · obtain ⟨haccepted, hsent⟩ := h.idle (handler_of_accept hweb)
    have htaken : (d.note .accept web).taken = d.taken ++ [r] := by simp [Served.note, hr]
    refine ⟨?_, fun hnone => ?_, fun p hp => ?_⟩
    · rw [htaken, Served.web_note, h.requests, hr, List.append_assoc]
      rfl
    · rw [Served.web_note, hh] at hnone
      cases hnone
    · rw [Served.web_note, hh] at hp
      cases hp
      refine ⟨d.taken, r, none, none, htaken, .ready, ?_, ?_⟩
      · rw [Served.web_note, hs, haccepted]
        exact (List.append_nil _).symm
      · exact hsent.trans (List.append_nil _).symm
  · obtain ⟨before, r, o, answer, htaken, hstage, haccepted, hsent⟩ := h.busy _ hc
    obtain ⟨hnext, ho, hanswer⟩ := hstage.http rfl hx
    rw [note_http hc]
    refine ⟨hr ▸ h.requests, fun hnone => ?_, fun p hp => ?_⟩
    · cases hh.symm.trans hnone
    · obtain rfl := Option.some.inj (hh.symm.trans hp)
      refine ⟨before, r, _, _, htaken, hnext, ?_, ?_⟩
      · rw [toList_or ho, ← List.append_assoc, ← haccepted]
        exact (congrArg (fun t : Sys T => t.accepted) hs).trans (accepted_of_answerHttp hx)
      · rw [toList_or hanswer, ← List.append_assoc, ← hsent]
  · obtain ⟨before, r, o, answer, htaken, hstage, haccepted, hsent⟩ := h.busy _ (handler_of_finish hweb)
    obtain ⟨rfl, rfl⟩ := hstage.over
    have hnote : d.note .finish web = { d with web } := rfl
    rw [hnote]
    refine ⟨hr ▸ h.requests, fun _ => ⟨?_, ?_⟩, fun p hp => ?_⟩
    · rw [htaken, List.filterMap_append, filterMap_singleton, ← haccepted]
      exact congrArg (fun t : Sys T => t.accepted) hs
    · rw [htaken, List.map_append]
      exact hsent
    · cases hh.symm.trans hp
  · have hnote : d.note (.host l) web = { d with web } := rfl
    have hacc := accepted_of_step hs hne
    rw [hnote]
    refine ⟨hr ▸ h.requests, fun hnone => ?_, fun p hp => ?_⟩
    · obtain ⟨haccepted, hsent⟩ := h.idle (hh ▸ hnone)
      exact ⟨hacc.trans haccepted, hsent⟩
    · obtain ⟨before, r, o, answer, htaken, hstage, haccepted, hsent⟩ := h.busy p (hh ▸ hp)
      exact ⟨before, r, o, answer, htaken, hstage, hacc.trans haccepted, hsent⟩

theorem Stage.begins (h : Stage rest r p o printed answer) :
    o.toList <+: (r.response rest).1.toList ∧ answer.toList <+: [(r.response rest).2.sent] := by
  cases h with
  | ready | put => exact ⟨List.nil_prefix, List.nil_prefix⟩
  | replying | sending => exact ⟨List.prefix_rfl, List.nil_prefix⟩
  | sent => exact ⟨List.prefix_rfl, List.prefix_rfl⟩

theorem Answering.begins {rs : List Request} {d : Served T} (h : Answering rest rs d) :
    d.web.sys.accepted <+: d.taken.filterMap (fun r => (r.response rest).1) ∧
      d.sent <+: d.taken.map fun r => (r.response rest).2.sent := by
  cases hh : d.web.handler with
  | none =>
    obtain ⟨haccepted, hsent⟩ := h.idle hh
    exact ⟨haccepted ▸ List.prefix_rfl, hsent ▸ List.prefix_rfl⟩
  | some p =>
    obtain ⟨before, r, o, answer, htaken, hstage, haccepted, hsent⟩ := h.busy p hh
    obtain ⟨ho, hanswer⟩ := hstage.begins
    rw [haccepted, hsent, htaken, List.filterMap_append, filterMap_singleton, List.map_append]
    exact ⟨(List.prefix_append_right_inj _).mpr ho, (List.prefix_append_right_inj _).mpr hanswer⟩

end

theorem response_event (rest : Rest) (r : Request) : (r.response rest).1 = r.event rest := by
  have hcommon : ∀ (bodyNull : Exit) (fields : Root → Except Str Parsed) (msg : Str),
      (respond msg (ending rest bodyNull fields r.body)).1 = accepted rest fields r.body := by
    intro bodyNull fields msg
    cases r.body with
    | none => rfl
    | some body =>
      simp only [accepted, ending]
      rcases tryParse rest fields body with what | (e | ev) <;> rfl
  obtain ⟨route, body⟩ := r
  cases route with
  | start | stop | startI | stopI => exact hcommon _ _ _
  | checkAliveI => rfl

/-- **The event loop refines the function that says what each request comes to**: whatever workers and scheduler do,
the events accepted and the replies sent are at every moment a beginning of those of the requests taken, and between
two requests all of them; and each event goes through the queue of the worker whose turn it is. -/
theorem requests_answered {rest : Rest} {W : Nat} {coll : List Doc} {os : Os} {rs : List Request}
    {ls : List WebLabel} {d : Served (Act Int)}
    (h : Runs (servedStep rest (service rest.env)) (fun _ _ => True) (Served.boot W coll os rs) ls d) :
    rs = d.taken ++ d.web.requests ∧
      (d.web.sys.accepted <+: d.taken.filterMap (Request.event rest) ∧
        d.sent <+: d.taken.map fun r => (r.response rest).2.sent) ∧
      (d.web.handler = none → d.sent = (d.taken.map fun r => (r.response rest).2.sent) ∧
        ∀ i < W, finishedBy i d.web.sys.finished ++ d.web.sys.queue i =
          lane W i (d.taken.filterMap (Request.event rest))) := by
  have hanswering : Answering rest rs d := by
    refine h.inv (Answering rest rs) ⟨rfl, fun _ => ⟨rfl, rfl⟩, fun p hp => ?_⟩ fun _ _ _ ht _ hstep => ht.step hstep
    cases hp
  rw [← funext (response_event rest)]
  refine ⟨hanswering.requests, hanswering.begins, fun hidle => ?_⟩
  obtain ⟨haccepted, hsent⟩ := hanswering.idle hidle
  refine ⟨hsent, fun i hi => ?_⟩
  have hweb : Runs (webStep rest (service rest.env)) (fun _ _ => True) (Web.boot W coll os rs) ls d.web :=
    h.image Served.web web_servedStep fun _ _ _ => trivial
  obtain ⟨ls', hrun⟩ : ∃ ls', Runs (step (service rest.env)) (fun _ _ => True) (Sys.boot W coll os) ls' d.web.sys :=
    host_of_runs (P := fun _ => True) (fun _ _ _ _ => trivial) (fun _ _ _ => trivial)
      (fun r _ => calls_handler_event fun _ _ => trivial) hweb
  rw [← Sys.map_boot (Ctl.code rest.env)] at hrun
  obtain ⟨u, hu, hrun⟩ := runs_points hrun
  have hlane := (delivery_of_runs hrun).lanes i hi
  rw [← haccepted, ← hu, Sys.map_queue]
  exact hlane

/-- A start is answered and processed, and a stop without a body is answered. -/
def servedTwo : Served (Act Int) :=
  (check (servedStep startRest (service sampleEnv)) (fun _ _ => True)
    (startOnce ++ [.accept, .http (some 1), .http none, .http none, .http none, .finish])
    (Served.boot (1 : Nat) [] ⟨[], []⟩ [startRequest, ⟨.stop, none⟩])).get (by decide)

theorem requests_answered_two :
    [startRequest, ⟨.stop, none⟩] = servedTwo.taken ++ servedTwo.web.requests ∧
      (servedTwo.web.sys.accepted <+: servedTwo.taken.filterMap (Request.event startRest) ∧
        servedTwo.sent <+: servedTwo.taken.map fun r => (r.response startRest).2.sent) ∧
      (servedTwo.web.handler = none → servedTwo.sent = (servedTwo.taken.map fun r => (r.response startRest).2.sent) ∧
        ∀ i < 1, finishedBy i servedTwo.web.sys.finished ++ servedTwo.web.sys.queue i =
          lane 1 i (servedTwo.taken.filterMap (Request.event startRest))) :=
  @requests_answered startRest 1 [] ⟨[], []⟩ _ _ servedTwo (runs_get _)

end PullStream
