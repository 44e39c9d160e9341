import PullStream.Control.Web
/-!
# What a request puts

`Request.event` is the event that the handler of a request puts, if it puts one: it is a function of the request
alone, and no handler puts anything else (`calls_handler_event`).
-/

namespace PullStream

open RestApi Prog

/-- The event that the handler of a request puts. -/
def Request.event (rest : Rest) (r : Request) : Option Event :=
  match r.route with
  | .start => accepted rest (startFields rest) r.body
  | .stop => accepted rest (stopFields rest) r.body
  | .startI => accepted rest (startIFields rest) r.body
  | .stopI => accepted rest (stopIFields rest) r.body
  | .checkAliveI => none

section

variable {rest : Rest} {fields : Root → Except Str Parsed} {body : Option Str} {r : Request} {ev : Event}
  {P : Event → Prop}

theorem accepted_parsed (h : accepted rest fields body = some ev) :
    ∃ text root, body = some text ∧ rest.parse (cStr text) = .ok (some root) ∧ fields root = .ok (.accept ev) := by
  cases body with
  | none => cases h
  | some text =>
    simp only [accepted] at h
    split at h
    · rename_i ev' htry
      obtain ⟨parsed, hparse, hfields⟩ := bind_ok htry
      cases parsed with
      | none => cases hfields
      | some root =>
        cases h
        exact ⟨text, root, rfl, hparse, hfields⟩
    · cases h

theorem calls_handler_event (hP : ∀ ev, r.event rest = some ev → P ev) :
    (r.handler rest).Calls (HttpCall.Puts P) := by
  obtain ⟨route, body⟩ := r
  cases route with
  | start | stop | startI | stopI => exact calls_handle hP
  | checkAliveI => exact calls_reply P none _

theorem route_of_create (h : r.event rest = some ev) (hty : ev.type = .createProcess) :
    r.route = .start ∧ accepted rest (startFields rest) r.body = some ev := by
  obtain ⟨route, body⟩ := r
  cases route with
  | start => exact ⟨rfl, h⟩
  | stop =>
    obtain ⟨root, hroot⟩ := accepted_some h
    cases hty.symm.trans (type_of_stopFields hroot)
  | startI =>
    obtain ⟨root, hroot⟩ := accepted_some h
    cases hty.symm.trans (type_of_startIFields hroot)
  | stopI =>
    obtain ⟨root, hroot⟩ := accepted_some h
    unfold stopIFields at hroot
    obtain ⟨pid, -, hroot⟩ := bind_ok hroot
    cases hroot
    cases hty
  | checkAliveI => cases h

end

end PullStream
