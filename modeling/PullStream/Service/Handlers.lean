import PullStream.Base.Trace
import PullStream.Service.Replies
import PullStream.Service.Decoding
/-!
# The ways through a handler

`trace_handle`: a handler that reads a body obtains a buffer, puts an event if its `try` block ends with one,
and then writes, sends and frees the buffer. So the buffer goes through the states of `BufferState` one after
another whichever way is taken (`buffer_protocol_iff`), except in `check_alive_i`, which obtains none.

What differs between the ways is the reply. At `INPUT_NO_MATCH` and `TRANSLATE_TYPE_UNSUPPORT` the variable
`ret` still has its initial value, so the text says 0 where the status says 400 and no event was put:
`tells_acceptance_iff` says which requests get there.
-/

namespace PullStream

open Prog RestApi

/-- The calls that a handler made, with their answers. -/
abbrev HttpCalls := List ((c : HttpCall) × HttpReply c)

/-- What was written to the buffer. -/
def printed (l : HttpCalls) : Str :=
  (l.filterMap fun
    | ⟨.evbufferAddPrintf _ text, _⟩ => some text
    | _ => none).flatten

def statuses (l : HttpCalls) : List Int :=
  l.filterMap fun
    | ⟨.evhttpSendReply code _ _, _⟩ => some code
    | _ => none

def puts (l : HttpCalls) : List Event :=
  l.filterMap fun
    | ⟨.putData ev, _⟩ => some ev
    | _ => none

/-- `put_data` returns `ERROR_OK` always. -/
def PutsAnswered (l : HttpCalls) : Prop := ∀ ev ret, ⟨.putData ev, ret⟩ ∈ l → ret = ErrorCode.errorOk.val

/-- The text says that `ret` is 0. -/
def TellsZero (text : Str) : Prop := lit "\x7b\"ret\":0," <+: text

/-- The result code, the event put and the status agree. -/
def TellsAcceptance (l : HttpCalls) : Prop :=
  (TellsZero (printed l) ↔ (puts l).length = 1) ∧ ((puts l).length = 1 ↔ statuses l = [httpOk])

/-! ### Which requests do not match -/

/-- `start` can read the four members and does not take what they are. -/
def startMismatch (root : Root) : Bool :=
  match root.getString "src", root.getString "dest", root.getString "sid", root.getInt "type" with
  | .ok src, .ok dest, .ok sid, .ok type =>
    decide (src = [] ∨ dest = [] ∨ sid = [] ∨
      TranslateType.rtmp2Rtmp.val ≠ type ∧ TranslateType.rtsp2Rtmp.val ≠ type)
  | _, _, _, _ => false

/-- `stop` can read the sid, and it is empty. -/
def stopMismatch (root : Root) : Bool :=
  match root.getString "sid" with
  | .ok sid => decide (sid = [])
  | .error _ => false

/-- There is a body that does not parse, or it has a root that does not match. -/
def bodyMismatch (rest : Rest) (mismatch : Root → Bool) (body : Option Str) : Bool :=
  match body.map fun body => rest.parse (cStr body) with
  | none | some (.error _) => false
  | some (.ok none) => true
  | some (.ok (some root)) => mismatch root

def Request.mismatched (rest : Rest) (r : Request) : Bool :=
  match r.route with
  | .start => bodyMismatch rest startMismatch r.body
  | .stop => bodyMismatch rest stopMismatch r.body
  | _ => bodyMismatch rest (fun _ => false) r.body

/-! ### The calls of a handler -/

section

variable {rest : Rest} {bodyNull e : Exit} {fields : Root → Except Str Parsed} {accepted : Int → Exit}
  {body : Option Str} {buffer : Buffer} {l : HttpCalls} {r : Request} {root : Root}

/-- The calls of the lines at the end. -/
def replyCalls (buffer : Buffer) (e : Exit) : HttpCalls :=
  [⟨.evbufferAddPrintf buffer (cStr e.output), ()⟩, ⟨.evhttpSendReply e.code e.reason buffer, ()⟩,
    ⟨.evbufferFree buffer, ()⟩]

theorem trace_reply : Trace (reply buffer e) l () ↔ l = replyCalls buffer e := by
  constructor
  · intro h
    obtain ⟨_, l₁, rfl, h₁⟩ := trace_call.mp h
    obtain ⟨_, l₂, rfl, h₂⟩ := trace_call.mp h₁
    obtain ⟨_, l₃, rfl, h₃⟩ := trace_call.mp h₂
    obtain ⟨rfl, -⟩ := trace_ret.mp h₃
    rfl
  · rintro rfl
    exact .call (.call (.call (.ret ())))

/-- An exception leads to the `catch` block. -/
def settle : Except Str Parsed → Parsed
  | .error what => .goto (exception what)
  | .ok parsed => parsed

/-- What a handler does with a body or without one. -/
def ending (rest : Rest) (bodyNull : Exit) (fields : Root → Except Str Parsed) (body : Option Str) : Parsed :=
  match body with
  | none => .goto bodyNull
  | some body => settle (tryParse rest fields body)

/-- **The ways through a handler.** -/
theorem trace_handle (h : Trace (handle rest bodyNull fields accepted body) l ()) : ∃ buffer,
    (∃ e, ending rest bodyNull fields body = .goto e ∧ l = ⟨.evbufferNew, buffer⟩ :: replyCalls buffer e) ∨
      ∃ ev ret, ending rest bodyNull fields body = .accept ev ∧
        l = ⟨.evbufferNew, buffer⟩ :: ⟨.putData ev, ret⟩ :: replyCalls buffer (accepted ret) := by
  obtain ⟨buffer, l₁, rfl, h₁⟩ := trace_call.mp h
  refine ⟨buffer, ?_⟩
  cases body with
  | none => exact .inl ⟨_, rfl, by rw [trace_reply.mp h₁]⟩
  | some body =>
    dsimp only [Prog.bind, ending] at h₁ ⊢
    generalize tryParse rest fields body = parsed at h₁ ⊢
    rcases parsed with what | (e | ev)
    · exact .inl ⟨_, rfl, by rw [trace_reply.mp h₁]⟩
    · exact .inl ⟨_, rfl, by rw [trace_reply.mp h₁]⟩
    · obtain ⟨ret, l₂, rfl, h₂⟩ := trace_call.mp h₁
      exact .inr ⟨ev, ret, rfl, by rw [trace_reply.mp h₂]⟩

/-! ### What the reply says -/

theorem tellsZero_append {a b : Str} (h : 9 ≤ a.length) : TellsZero (a ++ b) ↔ TellsZero a := by
  have hlit : (lit "\x7b\"ret\":0,").length = 9 := by decide
  rw [TellsZero, TellsZero, List.prefix_iff_eq_take, List.prefix_iff_eq_take, hlit,
    List.take_append_of_le_length h]

theorem cStr_append {a b : Str} (h : a.all (· ≠ 0) = true) : cStr (a ++ b) = a ++ cStr b :=
  List.takeWhile_append_of_pos fun c hc => List.all_eq_true.mp h c hc

/-- Up to the message a reply depends on `ret` only. -/
def RestApi.Exit.head (ret : Int) : Str := lit "\x7b\"ret\":" ++ lit (toString ret) ++ lit ",\""

theorem tellsZero_output (h : e.ret = 0 ∨ e.ret = 400 ∨ e.ret = 403) :
    TellsZero (cStr e.output) ↔ e.ret = 0 := by
  have houtput : e.output = Exit.head e.ret ++ (lit "msg\":\"" ++ (e.msg ++ lit "\"\x7d")) := by
    simp only [Exit.output, Exit.head, List.append_assoc]
  rw [houtput]
  rcases h with h | h | h
  all_goals
    rw [h, cStr_append (by decide), tellsZero_append (by decide)]
    unfold TellsZero
    decide

theorem tellsAcceptance_refused (hret : e.ret = 0 ∨ e.ret = 400 ∨ e.ret = 403) (hcode : e.code ≠ httpOk) :
    TellsAcceptance (⟨.evbufferNew, buffer⟩ :: replyCalls buffer e) ↔ e.ret ≠ 0 := by
  have hprinted : printed (⟨.evbufferNew, buffer⟩ :: replyCalls buffer e) = cStr e.output :=
    List.append_nil _
  rw [TellsAcceptance, hprinted, tellsZero_output hret]
  refine ⟨fun h hzero => absurd (h.1.mp hzero) nofun, fun h => ⟨iff_of_false h nofun, iff_of_false nofun ?_⟩⟩
  intro hstatus
  exact hcode (List.cons.inj hstatus).1

theorem tellsAcceptance_accepted {ev : Event} {ret : Int} (hret : e.ret = 0) (hcode : e.code = httpOk) :
    TellsAcceptance (⟨.evbufferNew, buffer⟩ :: ⟨.putData ev, ret⟩ :: replyCalls buffer e) := by
  have hprinted : printed (⟨.evbufferNew, buffer⟩ :: ⟨.putData ev, ret⟩ :: replyCalls buffer e) = cStr e.output :=
    List.append_nil _
  rw [TellsAcceptance, hprinted, tellsZero_output (.inl hret)]
  refine ⟨iff_of_true hret rfl, iff_of_true rfl ?_⟩
  exact congrArg (fun code => [code]) hcode

/-! ### Where a handler replies from -/

/-- A label that is gone to with the initial value of `ret`. -/
def RestApi.Exit.Unset (e : Exit) : Prop := e.ret = 0 ∧ e.code ≠ httpOk

/-- A reply that says an error. -/
def RestApi.Exit.Refuses (e : Exit) : Prop := (e.ret = 400 ∨ e.ret = 403) ∧ e.code ≠ httpOk

/-- `fields` goes to a label exactly at the roots that do not match. -/
def Screens (mismatch : Root → Bool) (fields : Root → Except Str Parsed) : Prop :=
  ∀ root, (mismatch root = true ∧ ∃ e, fields root = .ok (.goto e) ∧ e.Unset) ∨
    mismatch root = false ∧ ((∃ what, fields root = .error what) ∨ ∃ ev, fields root = .ok (.accept ev))

theorem ending_cases (rest : Rest) (body : Option Str) {mismatch : Root → Bool} (hnull : bodyNull.Refuses)
    (hfields : Screens mismatch fields) :
    (bodyMismatch rest mismatch body = true ∧ ∃ e, ending rest bodyNull fields body = .goto e ∧ e.Unset) ∨
      bodyMismatch rest mismatch body = false ∧
        ((∃ e, ending rest bodyNull fields body = .goto e ∧ e.Refuses) ∨
          ∃ ev, ending rest bodyNull fields body = .accept ev) := by
  have hexception : ∀ what, (exception what).Refuses := fun _ => ⟨.inr rfl, nofun⟩
  cases body with
  | none => exact .inr ⟨rfl, .inl ⟨bodyNull, rfl, hnull⟩⟩
  | some body =>
    simp only [bodyMismatch, ending, tryParse, Option.map_some]
    rcases rest.parse (cStr body) with what | (_ | root)
    · exact .inr ⟨rfl, .inl ⟨_, rfl, hexception what⟩⟩
    · exact .inl ⟨rfl, inputNoMatch, rfl, rfl, nofun⟩
    · obtain ⟨hm, e, he, hunset⟩ | ⟨hm, ⟨what, hwhat⟩ | ⟨ev, hev⟩⟩ := hfields root
      · exact .inl ⟨hm, e, congrArg settle he, hunset⟩
      · exact .inr ⟨hm, .inl ⟨exception what, congrArg settle hwhat, hexception what⟩⟩
      · exact .inr ⟨hm, .inr ⟨ev, congrArg settle hev⟩⟩

/-- **A reply of a handler tells acceptance exactly if the body does not mismatch.** -/
theorem tellsAcceptance_handle {mismatch : Root → Bool} (h : Trace (handle rest bodyNull fields accepted body) l ())
    (hputs : PutsAnswered l) (hnull : bodyNull.Refuses) (hfields : Screens mismatch fields)
    (haccepted : accepted ErrorCode.errorOk.val = ⟨httpOk, lit "OK", 0, (accepted ErrorCode.errorOk.val).msg⟩) :
    TellsAcceptance l ↔ bodyMismatch rest mismatch body = false := by
  have hending := ending_cases rest body hnull hfields
  obtain ⟨buffer, ⟨e, he, rfl⟩ | ⟨ev, ret, he, rfl⟩⟩ := trace_handle h
  all_goals rw [he] at hending
  · obtain ⟨hm, e', he', hunset⟩ | ⟨hm, ⟨e', he', hrefuses⟩ | ⟨ev, hev⟩⟩ := hending
    · cases he'
      rw [tellsAcceptance_refused (.inl hunset.1) hunset.2, hm]
      exact iff_of_false (fun h => h hunset.1) nofun
    · cases he'
      rw [tellsAcceptance_refused (.inr hrefuses.1) hrefuses.2, hm]
      refine iff_of_true (fun h => ?_) rfl
      rcases hrefuses.1 with h' | h'
      · cases h.symm.trans h'
      · cases h.symm.trans h'
    · cases hev
  · obtain ⟨-, e', he', -⟩ | ⟨hm, ⟨e', he', -⟩ | -⟩ := hending
    · cases he'
    · cases he'
    · obtain rfl := hputs ev ret (List.mem_cons_of_mem _ List.mem_cons_self)
      rw [haccepted, hm]
      exact iff_of_true (tellsAcceptance_accepted rfl rfl) rfl

theorem screens_start (rest : Rest) : Screens startMismatch (startFields rest) := by
  intro root
  unfold startMismatch startFields
  rcases root.getString "src" with what | src
  · exact .inr ⟨rfl, .inl ⟨what, rfl⟩⟩
  rcases root.getString "dest" with what | dest
  · exact .inr ⟨rfl, .inl ⟨what, rfl⟩⟩
  rcases root.getString "sid" with what | sid
  · exact .inr ⟨rfl, .inl ⟨what, rfl⟩⟩
  rcases root.getInt "type" with what | type
  · exact .inr ⟨rfl, .inl ⟨what, rfl⟩⟩
  by_cases hsrc : src = []
  · exact .inl ⟨decide_eq_true (.inl hsrc), inputNoMatch, if_pos hsrc, rfl, nofun⟩
  by_cases hdest : dest = []
  · exact .inl ⟨decide_eq_true (.inr (.inl hdest)), inputNoMatch, (if_neg hsrc).trans (if_pos hdest), rfl, nofun⟩
  by_cases hsid : sid = []
  · exact .inl ⟨decide_eq_true (.inr (.inr (.inl hsid))), inputNoMatch,
      (if_neg hsrc).trans ((if_neg hdest).trans (if_pos hsid)), rfl, nofun⟩
  by_cases htype : TranslateType.rtmp2Rtmp.val ≠ type ∧ TranslateType.rtsp2Rtmp.val ≠ type
  · exact .inl ⟨decide_eq_true (.inr (.inr (.inr htype))), translateTypeUnsupport,
      (if_neg hsrc).trans ((if_neg hdest).trans ((if_neg hsid).trans (if_pos htype))), rfl, nofun⟩
  · refine .inr ⟨decide_eq_false ?_, .inr ⟨_, (if_neg hsrc).trans ((if_neg hdest).trans
      ((if_neg hsid).trans (if_neg htype)))⟩⟩
    rintro (h | h | h | h)
    exacts [hsrc h, hdest h, hsid h, htype h]

theorem screens_stop (rest : Rest) : Screens stopMismatch (stopFields rest) := by
  intro root
  unfold stopMismatch stopFields
  rcases root.getString "sid" with what | sid
  · exact .inr ⟨rfl, .inl ⟨what, rfl⟩⟩
  by_cases hsid : sid = []
  · exact .inl ⟨decide_eq_true hsid, inputNoMatch, if_pos hsid, rfl, nofun⟩
  · exact .inr ⟨decide_eq_false hsid, .inr ⟨_, if_neg hsid⟩⟩

theorem screens_startI (rest : Rest) : Screens (fun _ => false) (startIFields rest) := by
  intro root
  unfold startIFields
  rcases root.getString "sid" with what | sid
  · exact .inr ⟨rfl, .inl ⟨what, rfl⟩⟩
  rcases root.getInt "type" with what | type
  · exact .inr ⟨rfl, .inl ⟨what, rfl⟩⟩
  · exact .inr ⟨rfl, .inr ⟨_, rfl⟩⟩

theorem screens_stopI (rest : Rest) : Screens (fun _ => false) (stopIFields rest) := by
  intro root
  unfold stopIFields
  rcases root.getInt "pid" with what | pid
  · exact .inr ⟨rfl, .inl ⟨what, rfl⟩⟩
  · exact .inr ⟨rfl, .inr ⟨_, rfl⟩⟩

/-- **The result code tells acceptance exactly if the request does not mismatch.** -/
theorem tells_acceptance_iff (h : Trace (r.handler rest) l ()) (hroute : r.route ≠ .checkAliveI)
    (hputs : PutsAnswered l) : TellsAcceptance l ↔ r.mismatched rest = false := by
  obtain ⟨route, body⟩ := r
  cases route with
  | start => exact tellsAcceptance_handle h hputs ⟨.inl rfl, nofun⟩ (screens_start rest) rfl
  | stop => exact tellsAcceptance_handle h hputs ⟨.inr rfl, nofun⟩ (screens_stop rest) rfl
  | startI => exact tellsAcceptance_handle h hputs ⟨.inl rfl, nofun⟩ (screens_startI rest) rfl
  | stopI => exact tellsAcceptance_handle h hputs ⟨.inl rfl, nofun⟩ (screens_stopI rest) rfl
  | checkAliveI => exact absurd rfl hroute

end

/-! ### A start that is accepted, and a stop with an empty sid -/

/-- The calls of a start that is accepted. -/
def startCalls : HttpCalls :=
  ⟨.evbufferNew, some 0⟩ :: ⟨.putData ⟨{ sampleInfo (lit "1") with
    srcUrl := lit "rtmp://a/1", destUrl := lit "rtmp://b/1", status := lit "active", host := startRest.host },
    .createProcess⟩, ErrorCode.errorOk.val⟩ :: replyCalls (some 0) ⟨httpOk, lit "OK", 0, lit "SUCCESS"⟩

theorem trace_startCalls : Trace (startRequest.handler startRest) startCalls () :=
  .call (.call (.call (.call (.call (.ret ())))))

theorem putsAnswered_startCalls : PutsAnswered startCalls := by
  intro ev ret h
  simp only [startCalls, replyCalls, List.mem_cons, List.not_mem_nil, or_false] at h
  rcases h with h | h | h | h | h
  all_goals cases h
  rfl

theorem tells_acceptance_iff_start : TellsAcceptance startCalls ↔ startRequest.mismatched startRest = false :=
  tells_acceptance_iff trace_startCalls nofun putsAnswered_startCalls

/-- A reader of a body whose sid is empty. -/
def emptyRest : Rest where
  env := sampleEnv
  parse _ := .ok (textOf [("sid", .ofStr [])])
  host := lit "127.0.0.1"

def emptyRequest : Request := ⟨.stop, some (lit "\x7b\"sid\":\"\"\x7d")⟩

theorem empty_sid_tells_zero :
    ¬ ∀ (rest : Rest) (r : Request) (l : HttpCalls), r.route ≠ .checkAliveI → Trace (r.handler rest) l () →
      PutsAnswered l → TellsAcceptance l := by
  intro h
  have htells := h emptyRest emptyRequest (⟨.evbufferNew, some 0⟩ :: replyCalls (some 0) inputNoMatch) nofun
    (.call (.call (.call (.call (.ret ()))))) (by simp [PutsAnswered, replyCalls])
  exact absurd (htells.1.mp (by unfold TellsZero; decide)) (by decide)

/-! ### The buffer of a reply -/

/-- How far a reply has got. -/
inductive BufferState where
  | unset
  | held (buffer : Nat)
  | replied (buffer : Nat)
  | freed
  deriving DecidableEq

/-- What a call makes of it: the buffer that was obtained is written to, sent, and freed after that. -/
def bufferStep : BufferState → (c : HttpCall) × HttpReply c → Option BufferState
  | state, ⟨.putData _, _⟩ => some state
  | .unset, ⟨.evbufferNew, some b⟩ => some (.held b)
  | .held b, ⟨.evbufferAddPrintf buffer _, _⟩ => if buffer = some b then some (.held b) else none
  | .held b, ⟨.evhttpSendReply _ _ buffer, _⟩ => if buffer = some b then some (.replied b) else none
  | .replied b, ⟨.evbufferFree buffer, _⟩ => if buffer = some b then some .freed else none
  | _, _ => none

def BufferProtocol (l : HttpCalls) : Prop := l.foldlM bufferStep .unset = some .freed

section

variable {rest : Rest} {bodyNull e : Exit} {fields : Root → Except Str Parsed} {accepted : Int → Exit}
  {body : Option Str} {buffer : Buffer} {l : HttpCalls} {r : Request} {b : Nat}

theorem buffer_reply (b : Nat) (e : Exit) : (replyCalls (some b) e).foldlM bufferStep (.held b) = some .freed := by
  simp [replyCalls, bufferStep]

theorem buffer_null (l : HttpCalls) : ¬ BufferProtocol (⟨.evbufferNew, none⟩ :: l) := nofun

/-- **A handler that reads a body keeps to the protocol exactly if it gets a buffer.** -/
theorem buffer_handle (h : Trace (handle rest bodyNull fields accepted body) l ()) :
    BufferProtocol l ↔ ⟨.evbufferNew, none⟩ ∉ l := by
  obtain ⟨buffer, ⟨e, -, rfl⟩ | ⟨ev, ret, -, rfl⟩⟩ := trace_handle h
  all_goals
    cases buffer with
    | none => exact iff_of_false (buffer_null _) (fun h => h List.mem_cons_self)
    | some b => exact iff_of_true (buffer_reply b _) (by simp [replyCalls])

/-- **The protocol of the reply buffer**: it is kept to exactly if the request has a body to read, and
`evbuffer_new` does not return `NULL`. -/
theorem buffer_protocol_iff (h : Trace (r.handler rest) l ()) :
    BufferProtocol l ↔ r.route ≠ .checkAliveI ∧ ⟨.evbufferNew, none⟩ ∉ l := by
  obtain ⟨route, body⟩ := r
  cases route with
  | start | stop | startI | stopI => exact (buffer_handle h).trans (and_iff_right nofun).symm
  | checkAliveI =>
    rw [trace_reply.mp h]
    exact iff_of_false nofun fun h => h.1 rfl

end

theorem buffer_protocol_iff_start :
    BufferProtocol startCalls ↔ startRequest.route ≠ .checkAliveI ∧ ⟨.evbufferNew, none⟩ ∉ startCalls :=
  buffer_protocol_iff trace_startCalls

/-- `check_alive_i` never sets its buffer. -/
theorem buffer_unset :
    ¬ ∀ (rest : Rest) (r : Request) (l : HttpCalls), Trace (r.handler rest) l () → BufferProtocol l := by
  intro h
  have hprotocol := h startRest ⟨.checkAliveI, none⟩ _ (trace_reply.mpr rfl)
  cases hprotocol

end PullStream
