import PullStream.App.RestApi
import PullStream.Control.Simulation
/-!
# The event loop and the host behind it

What the handlers of the common shape put (`accepted`, `calls_handle`), what a step of the event loop does
(`webStep_cases`), and that the host behind the event loop runs as the host alone (`host_of_runs`).
-/

namespace PullStream

open Transition RestApi

/-! ### What the handlers put -/

/-- A call that puts no event but one of which `P` holds. -/
def HttpCall.Puts (P : Event → Prop) : HttpCall → Prop
  | .putData ev => P ev
  | _ => True

/-- The event a handler of the common shape puts. -/
def accepted (rest : Rest) (fields : Root → Except Str Parsed) : Option Str → Option Event
  | none => none
  | some body =>
    match tryParse rest fields body with
    | .ok (.accept ev) => some ev
    | _ => none

section

variable {rest : Rest} {root : Root} {ev : Event} {fields : Root → Except Str Parsed} {body : Option Str}
  {P : Event → Prop}

theorem bind_ok {ε α β : Type} {x : Except ε α} {f : α → Except ε β} {b : β} (h : (x >>= f) = .ok b) :
    ∃ a, x = .ok a ∧ f a = .ok b := by
  cases x with
  | error e => cases h
  | ok a => exact ⟨a, rfl, h⟩

theorem type_of_startFields (h : startFields rest root = .ok (.accept ev)) : ev.type = .createProcess := by
  unfold startFields at h
  obtain ⟨srcUrl, -, h⟩ := bind_ok h
  obtain ⟨destUrl, -, h⟩ := bind_ok h
  obtain ⟨sid, -, h⟩ := bind_ok h
  obtain ⟨type, -, h⟩ := bind_ok h
  split_ifs at h
  all_goals cases h
  rfl

theorem type_of_stopFields (h : stopFields rest root = .ok (.accept ev)) : ev.type = .removeProcess := by
  unfold stopFields at h
  obtain ⟨sid, -, h⟩ := bind_ok h
  split_ifs at h
  all_goals cases h
  rfl

theorem type_of_startIFields (h : startIFields rest root = .ok (.accept ev)) :
    ev.type = .reloadProcess := by
  unfold startIFields at h
  obtain ⟨sid, -, h⟩ := bind_ok h
  obtain ⟨type, -, h⟩ := bind_ok h
  cases h
  rfl

theorem accepted_some (h : accepted rest fields body = some ev) :
    ∃ root, fields root = .ok (.accept ev) := by
  cases body with
  | none => cases h
  | some body =>
    simp only [accepted] at h
    split at h
    · rename_i ev' htry
      obtain ⟨text, -, htext⟩ := bind_ok htry
      cases text with
      | none => cases htext
      | some root =>
        cases h
        exact ⟨root, htext⟩
    · cases h

theorem calls_reply (P : Event → Prop) (buffer : Buffer) (e : Exit) :
    (reply buffer e).Calls (HttpCall.Puts P) :=
  ⟨trivial, fun _ => ⟨trivial, fun _ => ⟨trivial, fun _ => trivial⟩⟩⟩

theorem calls_handle {bodyNull : Exit} {done : Int → Exit}
    (h : ∀ ev, accepted rest fields body = some ev → P ev) :
    (handle rest bodyNull fields done body).Calls (HttpCall.Puts P) := by
  refine ⟨trivial, fun buffer => ?_⟩
  cases body with
  | none => exact calls_reply P buffer bodyNull
  | some body =>
    simp only [accepted] at h
    dsimp only
    rcases htry : tryParse rest fields body with what | (e | ev)
    · exact calls_reply P buffer _
    · exact calls_reply P buffer e
    · refine ⟨h ev ?_, fun ret => calls_reply P buffer (done ret)⟩
      rw [htry]

end

/-! ### The host behind the event loop -/

section

variable {T : Type} {I : Threads T} {rest : Rest} {P : Event → Prop} {W : Int} {coll : List Doc} {os : Os}
  {rs : List Request} {ls : List WebLabel} {w w' : Web T}

theorem webStep_cases {l : WebLabel} (h : webStep rest I l w = some w') :
    (∃ r, l = .accept ∧ w.requests = r :: w'.requests ∧ w'.handler = some (r.handler rest) ∧
      w'.sys = w.sys) ∨
    (∃ c k b x, l = .http b ∧ w.handler = some (.call c k) ∧ answerHttp I b c w.sys = some x ∧ w'.sys = x.2 ∧
      w'.handler = some (k x.1) ∧ w'.requests = w.requests) ∨
    (l = .finish ∧ w'.handler = none ∧ w'.sys = w.sys ∧ w'.requests = w.requests) ∨
    ∃ l', l = .host l' ∧ (∀ ev, l' ≠ .put ev) ∧ step I l' w.sys = some w'.sys ∧ w'.handler = w.handler ∧
      w'.requests = w.requests := by
  cases l with
  | host l =>
    have hput : ∀ ev, l ≠ .put ev := by
      rintro ev rfl
      cases h
    have hmap : (step I l w.sys).map (fun sys => { w with sys }) = some w' := by
      cases l with
      | put ev => exact absurd rfl (hput ev)
      | _ => exact h
    obtain ⟨s, hs, rfl⟩ := Option.map_eq_some_iff.mp hmap
    exact .inr (.inr (.inr ⟨l, rfl, hput, hs, rfl, rfl⟩))
  | accept =>
    replace h : (if w.sys.aborted then none else loopStep rest I .accept w) = some w' := h
    split_ifs at h
    simp only [loopStep] at h
    split at h
    all_goals try cases h
    · rename_i hh
      split at h
      · cases h
      · rename_i r requests hreq
        cases h
        exact .inl ⟨r, rfl, hreq, rfl, rfl⟩
    all_goals contradiction
  | http b =>
    replace h : (if w.sys.aborted then none else loopStep rest I (.http b) w) = some w' := h
    split_ifs at h
    simp only [loopStep] at h
    split at h
    all_goals try contradiction
    rename_i b' c k hl hh
    cases hl
    obtain ⟨x, hx, rfl⟩ := Option.map_eq_some_iff.mp h
    exact .inr (.inl ⟨c, k, _, x, rfl, hh, hx, rfl, rfl, rfl⟩)
  | finish =>
    replace h : (if w.sys.aborted then none else loopStep rest I .finish w) = some w' := h
    split_ifs at h
    simp only [loopStep] at h
    split at h
    all_goals try contradiction
    cases h
    exact .inr (.inr (.inl ⟨rfl, rfl, rfl, rfl⟩))

/-- **The host behind the event loop runs as the host alone**, the events put being those of the
handlers. -/
theorem host_of_runs {okW : Web T → WebLabel → Prop} {ok : Sys T → Label → Prop}
    (hok : ∀ w l, okW w (.host l) → (∀ ev, l ≠ .put ev) → ok w.sys l) (hput : ∀ s ev, P ev → ok s (.put ev))
    (hP : ∀ r ∈ rs, (r.handler rest).Calls (HttpCall.Puts P))
    (h : Runs (webStep rest I) okW (Web.boot W coll os rs) ls w) :
    ∃ ls', Runs (step I) ok (Sys.boot W coll os) ls' w.sys := by
  refine (h.inv (fun w => (∃ ls', Runs (step I) ok (Sys.boot W coll os) ls' w.sys) ∧
    (∀ r ∈ w.requests, (r.handler rest).Calls (HttpCall.Puts P)) ∧
    ∀ prog, w.handler = some prog → prog.Calls (HttpCall.Puts P)) ⟨⟨[], .nil⟩, hP, nofun⟩ ?_).1
  rintro w l w' ⟨⟨ls', hrun⟩, hreq, hprog⟩ hl hstep
  obtain ⟨r, -, hr, hh, hs⟩ | ⟨c, k, b, x, -, hc, hx, hs, hh, hr⟩ | ⟨-, hh, hs, hr⟩ |
    ⟨l, rfl, hne, hs, hh, hr⟩ := webStep_cases hstep
  · rw [hs, hh]
    rw [hr] at hreq
    refine ⟨⟨ls', hrun⟩, fun r' hr' => hreq r' (List.mem_cons_of_mem _ hr'), ?_⟩
    intro prog hp
    cases hp
    exact hreq r List.mem_cons_self
  · obtain ⟨hputs, hk⟩ := hprog _ hc
    refine ⟨?_, hr ▸ hreq, fun prog hp => ?_⟩
    · cases c with
      | putData ev =>
        obtain ⟨s', hs', rfl⟩ := Option.map_eq_some_iff.mp hx
        exact ⟨_, hrun.snoc (hput w.sys ev hputs) (hs ▸ hs')⟩
      | evbufferNew =>
        cases hx
        exact ⟨ls', hs ▸ hrun⟩
      | evbufferAddPrintf | evhttpSendReply | evbufferFree =>
        simp only [answerHttp] at hx
        split_ifs at hx
        cases hx
        exact ⟨ls', hs ▸ hrun⟩
    · rw [hh] at hp
      cases hp
      exact hk x.1
  · rw [hs, hh, hr]
    exact ⟨⟨ls', hrun⟩, hreq, nofun⟩
  · rw [hh, hr]
    exact ⟨⟨_, hrun.snoc (hok w l hl hne) hs⟩, hreq, hprog⟩

end

end PullStream
