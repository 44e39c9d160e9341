import PullStream.Control.Web
import PullStream.Service.Delivery
/-!
# What a start is answered, and what comes of it

`start` answers on the value that `put_data` returns, and `put_data` returns `ERROR_OK` whatever the event
is. Whether the stream is recorded is looked up later, by the worker that takes the event. A `Desk` is the
event loop with a record of the replies sent, each with the number of the event its handler put. The
replies are truthful (`Desk.Truthful`) in every run in which no start finds a record of its sid
(`starts_answered_truly`), and a start whose event was put is answered with a success in any case
(`start_answered_ok`), so they are not truthful when one does (`start_repeated`).
-/

namespace PullStream

open Function Transition RestApi Lane Family

/-- A reply that was sent: on which path, with which status, and the number of the event that the handler
had put. -/
structure Answered where
  route : Route
  event : Option Nat
  code : Int
  reason : Str
  deriving DecidableEq, Repr

/-- The event loop of a host, with the path of the request that is being handled, the number of the event
put for it, and the replies sent so far. -/
structure Desk (T : Type) where
  web : Web T
  route : Option Route
  event : Option Nat
  answered : List Answered

section

variable {T : Type}

namespace Desk

def boot (workerNum : Int) (coll : List Doc) (os : Os) (requests : List Request) : Desk T :=
  ⟨Web.boot workerNum coll os requests, none, none, []⟩

/-- The record after a step of the event loop. -/
def note (d : Desk T) (l : WebLabel) (web : Web T) : Desk T :=
  match l, d.web.handler with
  | .accept, _ => { d with web, route := d.web.requests.head?.map (·.route), event := none }
  | .http _, some (.call (.putData _) _) => { d with web, event := some d.web.sys.accepted.length }
  | .http _, some (.call (.evhttpSendReply code reason _) _) =>
    { d with web, answered := d.answered ++ (d.route.map fun route => ⟨route, d.event, code, reason⟩).toList }
  | _, _ => { d with web }

end Desk

def deskStep (rest : Rest) (I : Threads T) (l : WebLabel) (d : Desk T) : Option (Desk T) :=
  (webStep rest I l d.web).map (d.note l)

/-- What was returned for event number `n`, which is element number `n / W` of the lane of its worker. -/
def Sys.outcome (W : Nat) (s : Sys T) (n : Nat) : Option Done :=
  (s.finished.filter fun d => d.worker = n % W)[n / W]?

/-- No start that was answered with a success is rejected because its stream exists. -/
def Desk.Truthful (W : Nat) (d : Desk T) : Prop :=
  ∀ a ∈ d.answered, a.route = .start → a.code = httpOk → ∀ n, a.event = some n →
    ∀ e, d.web.sys.outcome W n = some e → e.rtn ≠ ErrorCode.errorStreamExist.val

/-- A start whose query succeeds finds no record of its sid. -/
def Sys.findsFree (I : Threads T) (s : Sys T) : Label → Bool
  | .call (.worker i) .ok =>
    match s.job i with
    | some (ev, t) =>
      decide (ev.type = .createProcess → (I.view t).call? = some (.findOne (.sid ev.key)) →
        recs ev.key s.coll = [])
    | none => true
  | _ => true

def Desk.findsFree (I : Threads T) (d : Desk T) : WebLabel → Bool
  | .host l => d.web.sys.findsFree I l
  | _ => true

/-! ### Desks and event loops -/

theorem Desk.web_note (d : Desk T) (l : WebLabel) (web : Web T) : (d.note l web).web = web := by
  unfold Desk.note
  split <;> rfl

variable {rest : Rest} {I : Threads T}

theorem web_deskStep (l : WebLabel) (d : Desk T) :
    webStep rest I l d.web = (deskStep rest I l d).map Desk.web := by
  simp only [deskStep, Option.map_map]
  cases webStep rest I l d.web with
  | none => rfl
  | some web => exact congrArg some (d.web_note l web).symm

end

/-- Outcome number `n` is that of the event accepted as number `n`. -/
theorem outcome_event {env : Env} {ok : Sys (Act Int) → Label → Prop} {W : Nat} {coll : List Doc} {os : Os}
    {ls : List Label} {s : Sys (Act Int)} {n : Nat} {e : Done}
    (h : Runs (step (service env)) ok (Sys.boot W coll os) ls s) (he : s.outcome W n = some e) :
    s.accepted[n]? = some e.ev := by
  rw [← Sys.map_boot (Ctl.code env)] at h
  obtain ⟨u, rfl, hrun⟩ := runs_points h
  have hd := delivery_of_runs hrun
  have hmem := List.mem_filter.mp (List.mem_of_getElem? he)
  have hi : n % W < W := by
    rw [← of_decide_eq_true hmem.2]
    exact hd.done e hmem.1
  have hev : (finishedBy (n % W) u.conf.finished)[n / W]? = some e.ev := by
    rw [finishedBy, List.getElem?_map]
    exact congrArg (Option.map Done.ev) he
  have hlane := congrArg (·[n / W]?) (hd.lanes (n % W) hi)
  simp only [getElem?_lane hi, Nat.mod_add_div'] at hlane
  refine hlane.symm.trans ?_
  rw [List.getElem?_append_left (List.getElem?_eq_some_iff.mp hev).1]
  exact hev

/-! ### No start is rejected -/

/-- What a thread returns that did not find its stream recorded. -/
def Ctl.Accepts : Ctl → Prop
  | .done rtn => rtn ≠ ErrorCode.errorStreamExist.val
  | _ => True

section

variable {env : Env} {st st' : Store} {c c' : Ctl} {ch : Choice}

theorem Ctl.accepts_detectNext (l : List ProcessInfo) : (Ctl.detectNext l).Accepts := by
  cases l with
  | nil => exact nofun
  | cons r rest => trivial

theorem Ctl.accepts_start (ev : Event) : (Ctl.start ev).Accepts := by
  unfold Ctl.start
  cases ev.type <;> trivial

theorem CStep.accepts (h : CStep env st c ch c' st')
    (hfree : ∀ p, c = .spawnQuery p → recs (cStr p.sid) st.coll = []) : c'.Accepts := by
  cases h with
  | @spawnFound p d hd =>
    rw [hfree p rfl] at hd
    cases hd
  | snapshot | probeAlive | lookupAbsent | detectForkFailed | detectUpdate => exact Ctl.accepts_detectNext _
  | spawnForkFailed | insert | removeAbsent | kill | reloadAbsent | reloadForkFailed | reloadUpdate =>
    exact nofun
  | _ => trivial

theorem FStep.accepts (h : FStep c c') : c'.Accepts := by
  cases h with
  | lookup | detectUpdate => exact Ctl.accepts_detectNext _
  | spawnQuery | delete => trivial
  | _ => exact nofun

/-- No start has been rejected, and none is about to be. -/
structure Accepting (env : Env) (v : Conf) : Prop where
  fits : v.Fits env
  thread : ∀ τ c, v.thread τ = some c → c.Accepts
  finished : ∀ e ∈ v.finished, e.rtn ≠ ErrorCode.errorStreamExist.val

theorem Accepting.move {v v' : Conf} {l : Label} (h : Accepting env v) (hm : Moves env v l v')
    (hfree : ∀ τ p, l = .call τ .ok → v.thread τ = some (.spawnQuery p) →
      recs (cStr p.sid) v.store.coll = []) : Accepting env v' := by
  refine ⟨h.fits.move hm, fun τ c hτ => ?_, fun e he => ?_⟩
  · cases hm with
    | front =>
      obtain ⟨-, rfl⟩ | ⟨-, hτ⟩ := of_update_some hτ
      · exact Ctl.accepts_start _
      · exact h.thread τ c hτ
    | @call σ ch c₀ c' st' ht hc =>
      obtain ⟨-, rfl⟩ | ⟨-, hτ⟩ := of_update_some hτ
      · by_cases hdb : ch = .dbFail
        · subst hdb
          exact (hc.fstep (h.fits.parent ht)).1.accepts
        · have hstep := hc.cstep (h.fits.parent ht) hdb
          apply hstep.accepts
          rintro p rfl
          cases hstep with
          | spawnFound => exact hfree σ p rfl ht
          | spawnAbsent habs => exact habs
      · exact h.thread τ c hτ
    | detect =>
      obtain ⟨-, rfl⟩ | ⟨-, hτ⟩ := of_update_some hτ
      · trivial
      · exact h.thread τ c hτ
    | pop | detectEnd => exact h.thread τ c (of_update_none hτ).2
    | _ => exact h.thread τ c hτ
  · cases hm with
    | pop hev ht hq =>
      rcases List.mem_append.mp he with he | he
      · exact h.finished e he
      · rw [List.mem_singleton.mp he]
        exact h.thread _ _ ht
    | _ => exact h.finished e he

end

theorem findsFree_map {env : Env} (s : Sys Ctl) (l : Label) :
    (s.map (Ctl.code env)).findsFree (service env) l = s.findsFree (points env) l := by
  have hview := (points_hom env).call?
  unfold Sys.findsFree
  split
  · rw [Sys.map_job]
    rename_i i
    cases s.job i <;> simp [hview]
  · rfl

theorem accepting_of_runs {env : Env} {W : Int} {coll : List Doc} {os : Os} {ls : List Label} {u : Sys Ctl}
    (h : Runs (step (points env)) (fun t l => t.findsFree (points env) l = true) (Sys.boot W coll os) ls u) :
    Accepting env u.conf := by
  refine h.inv (fun t => Accepting env t.conf) ⟨fits_boot .., by simp, by simp [Sys.conf, Sys.boot]⟩ ?_
  intro t l u hinv hfree hstep
  apply hinv.move (moves_of_step hstep)
  rintro τ p rfl ht
  cases τ with
  | sched => exact (hinv.fits.sched _ ht).elim
  | worker i =>
    obtain ⟨ev, hev, hty, hkey⟩ := hinv.fits.worker i _ ht
    have hjob := job_iff.mpr ⟨hev, ht⟩
    simp only [Sys.findsFree, hjob, decide_eq_true_eq] at hfree
    rw [hkey]
    exact hfree hty (by simp [points, Ctl.view, View.call?, hkey])

/-- **When no start finds a record of its sid, none that is answered with a success is rejected.** -/
theorem starts_answered_truly {rest : Rest} {W : Nat} {coll : List Doc} {os : Os} {rs : List Request}
    {ls : List WebLabel} {d : Desk (Act Int)}
    (h : Runs (deskStep rest (service rest.env)) (fun d l => d.findsFree (service rest.env) l = true)
      (Desk.boot W coll os rs) ls d) : d.Truthful W := by
  have hweb : Runs (webStep rest (service rest.env))
      (fun w l => ∀ l', l = .host l' → w.sys.findsFree (service rest.env) l' = true)
      (Web.boot W coll os rs) ls d.web := by
    refine h.image Desk.web (fun l d => web_deskStep l d) fun d l hl l' hl' => ?_
    subst hl'
    exact hl
  have hall : ∀ c, HttpCall.Puts (fun _ => True) c := by
    intro c
    cases c <;> trivial
  obtain ⟨ls', hrun⟩ : ∃ ls', Runs (step (service rest.env))
      (fun s l => s.findsFree (service rest.env) l = true) (Sys.boot W coll os) ls' d.web.sys := by
    apply host_of_runs (P := fun _ => True) (fun w l hl _ => hl l rfl) (fun _ _ _ => rfl) _ hweb
    exact fun r _ => Prog.calls_of_forall hall _
  rw [← Sys.map_boot (Ctl.code rest.env)] at hrun
  obtain ⟨u, hu, hrun⟩ := runs_points hrun
  simp only [findsFree_map] at hrun
  intro a _ _ _ n _ e he
  apply (accepting_of_runs hrun).finished e
  rw [← hu] at he
  exact List.mem_of_mem_filter (List.mem_of_getElem? he)

/-! ### A stream started again after a stop, and without one -/

/-- A reader of the members of one start. -/
def startRest : Rest where
  env := sampleEnv
  parse _ := .ok <| some fun name => .ok <| match name with
    | "src" => .ofStr (lit "rtmp://a/1")
    | "dest" => .ofStr (lit "rtmp://b/1")
    | "sid" => .ofStr (lit "1")
    | "type" => .ofInt 0
    | _ => .null
  host := lit "127.0.0.1"

def startRequest : Request :=
  ⟨.start, some (lit "\x7b\"src\":\"rtmp://a/1\",\"dest\":\"rtmp://b/1\",\"sid\":\"1\",\"type\":0\x7d")⟩

/-- The event loop takes a start and answers it. -/
def answerLabels : List WebLabel :=
  [.accept, .http (some 0), .http none, .http none, .http none, .http none, .finish]

def startOnce : List WebLabel := answerLabels ++ (startLabels 0 10).map .host

def stopRequest : Request := ⟨.stop, some (lit "\x7b\"sid\":\"1\"\x7d")⟩

/-- The stream is started, stopped, and started again with another process. -/
def startAgain : List WebLabel :=
  startOnce ++ answerLabels ++ (stopLabels 0).map .host ++ answerLabels ++ (startLabels 0 11).map .host

def startAgainEnd : Desk (Act Int) :=
  (check (deskStep startRest (service sampleEnv)) (fun d l => d.findsFree (service sampleEnv) l = true)
    startAgain (Desk.boot (1 : Nat) [] ⟨[], []⟩ [startRequest, stopRequest, startRequest])).get (by decide)

theorem starts_answered_truly_again : startAgainEnd.Truthful 1 :=
  @starts_answered_truly startRest 1 [] ⟨[], []⟩ [startRequest, stopRequest, startRequest] startAgain startAgainEnd
    (runs_get _)

/-- The second of two equal starts is answered before a worker takes it. -/
def startTwice : List WebLabel :=
  answerLabels ++ answerLabels ++ (startLabels 0 10).map .host ++
    [.host (.front 0), .host (.call (.worker 0) .ok), .host (.pop 0)]

def startTwiceEnd : Desk (Act Int) :=
  (check (deskStep startRest (service sampleEnv)) (fun _ _ => True) startTwice
    (Desk.boot (1 : Nat) [] ⟨[], []⟩ [startRequest, startRequest])).get (by decide)

theorem start_repeated :
    ¬ ∀ (rest : Rest) (W : Nat) (coll : List Doc) (os : Os) (rs : List Request) (ls : List WebLabel)
      (d : Desk (Act Int)), 1 ≤ W →
      Runs (deskStep rest (service rest.env)) (fun _ _ => True) (Desk.boot W coll os rs) ls d →
      d.Truthful W := by
  intro h
  have htrue := h startRest 1 [] ⟨[], []⟩ [startRequest, startRequest] startTwice startTwiceEnd (by decide)
    (runs_get _)
  refine htrue ⟨.start, some 1, httpOk, lit "OK"⟩ (by decide) rfl rfl 1 rfl
    ⟨0, ⟨{ sampleInfo (lit "1") with
      srcUrl := lit "rtmp://a/1", destUrl := lit "rtmp://b/1", status := lit "active", host := startRest.host },
      .createProcess⟩, 1⟩ (by decide) rfl

/-! ### A start whose event was put is answered with a success -/

/-- A call that sends no status but `code`. -/
def HttpCall.Sends (code : Int) : HttpCall → Prop
  | .evhttpSendReply c _ _ => c = code
  | _ => True

/-- What is left of a handler after `put_data` has returned makes only calls of which `P` holds. -/
def AfterPut (P : HttpCall → Prop) : Http Unit → Prop
  | .ret _ => True
  | .call (.putData _) k => (k ErrorCode.errorOk.val).Calls P
  | .call _ k => ∀ x, AfterPut P (k x)

theorem afterPut_reply (P : HttpCall → Prop) (buffer : Buffer) (e : Exit) : AfterPut P (reply buffer e) :=
  fun _ _ _ => trivial

theorem afterPut_start (rest : Rest) (body : Option Str) :
    AfterPut (HttpCall.Sends httpOk) (start rest body) := by
  intro buffer
  cases body with
  | none => exact afterPut_reply _ buffer _
  | some body =>
    dsimp only
    rcases tryParse rest (startFields rest) body with what | (e | ev)
    · exact afterPut_reply _ buffer _
    · exact afterPut_reply _ buffer _
    · exact ⟨trivial, fun _ => ⟨rfl, fun _ => ⟨trivial, fun _ => trivial⟩⟩⟩

/-- What the replies to starts say, and what is left of the handler of one. -/
structure Answers {T : Type} (d : Desk T) : Prop where
  sent : ∀ a ∈ d.answered, a.route = .start → a.event.isSome → a.code = httpOk
  before : d.route = some .start → d.event = none → ∀ prog, d.web.handler = some prog →
    AfterPut (HttpCall.Sends httpOk) prog
  after : d.route = some .start → d.event.isSome → ∀ prog, d.web.handler = some prog →
    prog.Calls (HttpCall.Sends httpOk)

section

variable {T : Type} {rest : Rest} {I : Threads T} {d d' : Desk T} {l : WebLabel}

theorem Answers.call (h : Answers d) {c : HttpCall} {k : HttpReply c → Http Unit} {b : Buffer}
    {x : HttpReply c × Sys T} {web : Web T} (hc : d.web.handler = some (.call c k))
    (hx : answerHttp I b c d.web.sys = some x) (hweb : web.handler = some (k x.1)) :
    Answers (d.note (.http b) web) := by
  have hcalls := fun hroute hev => h.after hroute hev _ hc
  have hbefore := fun hroute hev => h.before hroute hev _ hc
  cases c with
  | putData ev =>
    obtain ⟨s, -, rfl⟩ := Option.map_eq_some_iff.mp hx
    simp only [Desk.note, hc]
    refine ⟨h.sent, fun _ => nofun, fun hroute _ prog hprog => ?_⟩
    cases hweb.symm.trans hprog
    cases hev : d.event with
    | none => exact hbefore hroute hev
    | some n => exact (hcalls hroute (hev ▸ rfl)).2 _
  | evhttpSendReply code reason buffer =>
    simp only [Desk.note, hc]
    refine ⟨fun a ha hroute hev => ?_, fun hroute hev prog hprog => ?_, fun hroute hev prog hprog => ?_⟩
    · rcases List.mem_append.mp ha with ha | ha
      · exact h.sent a ha hroute hev
      · obtain ⟨route, hr, rfl⟩ := Option.map_eq_some_iff.mp (Option.mem_toList.mp ha)
        exact (hcalls (hr.trans (congrArg some hroute)) hev).1
    · cases hweb.symm.trans hprog
      exact hbefore hroute hev _
    · cases hweb.symm.trans hprog
      exact (hcalls hroute hev).2 _
  | evbufferNew | evbufferAddPrintf | evbufferFree =>
    simp only [Desk.note, hc]
    refine ⟨h.sent, fun hroute hev prog hprog => ?_, fun hroute hev prog hprog => ?_⟩
    · cases hweb.symm.trans hprog
      exact hbefore hroute hev _
    · cases hweb.symm.trans hprog
      exact (hcalls hroute hev).2 _

theorem Answers.step (h : Answers d) (hstep : deskStep rest I l d = some d') : Answers d' := by
  obtain ⟨web, hweb, rfl⟩ := Option.map_eq_some_iff.mp hstep
  obtain ⟨r, rfl, hr, hh, -⟩ | ⟨c, k, b, x, rfl, hc, hx, -, hh, -⟩ | ⟨rfl, hh, -⟩ | ⟨l, rfl, -, -, hh, -⟩ :=
    webStep_cases hweb
  · refine ⟨h.sent, fun hroute _ prog hprog => ?_, fun _ => nofun⟩
    simp only [Desk.note, hr, List.head?_cons, Option.map_some, Option.some.injEq] at hroute
    cases hh.symm.trans hprog
    unfold Request.handler
    rw [hroute]
    exact afterPut_start rest r.body
  · exact h.call hc hx hh
  · refine ⟨h.sent, fun _ _ prog hprog => ?_, fun _ _ prog hprog => ?_⟩
    all_goals cases hh.symm.trans hprog
  · exact ⟨h.sent, fun hroute hev prog hprog => h.before hroute hev prog (hh ▸ hprog),
      fun hroute hev prog hprog => h.after hroute hev prog (hh ▸ hprog)⟩

/-- **A start whose event was put is answered with a success**, whatever comes of the event. -/
theorem start_answered_ok {ok : Desk T → WebLabel → Prop} {W : Int} {coll : List Doc} {os : Os}
    {rs : List Request} {ls : List WebLabel} (h : Runs (deskStep rest I) ok (Desk.boot W coll os rs) ls d) :
    ∀ a ∈ d.answered, a.route = .start → a.event.isSome → a.code = httpOk := by
  refine (h.inv Answers ⟨by simp [Desk.boot], by simp [Desk.boot], by simp [Desk.boot]⟩ ?_).sent
  exact fun t l u hinv _ hstep => hinv.step hstep

end

end PullStream
