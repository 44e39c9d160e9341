import PullStream.Control.Solo
/-!
# Workers that finish

The surroundings can always let a worker go on to the end of the function it is in, unless the event is a
termination (`worker_finishes`). So a service in which every worker is idle can take an event, process it,
and be in such a state again (`idle_of_event`); after a termination it can abort (`abort_of_event`).
-/

namespace PullStream

open Function Transition

variable {T : Type} {I : Threads T}

theorem step_of_call {s : Sys T} {τ : Tid} {ch : Choice} {t : T} {c : Call} {k : Reply c → T}
    {x : Reply c × Store} (hrun : s.aborted = false) (ht : s.thread τ = some t) (hv : I.view t = .call c k)
    (hx : answer I.shown c ch s.store = some x) :
    step I (.call τ ch) s = some ((s.setThread τ (k x.1)).setStore x.2) := by
  simp [step, hrun, stepRunning, ht, hv, hx]

theorem step_of_pop {s : Sys T} {i : Nat} {ev₀ ev : Event} {q : List Event} {t : T} {rtn : Int}
    (hrun : s.aborted = false) (hw : s.workerList[i]? = some ⟨ev₀ :: q, some (ev, t)⟩)
    (hv : I.view t = .ret rtn) :
    step I (.pop i) s = some { s.setWorker i ⟨q, none⟩ with finished := s.finished ++ [⟨i, ev, rtn⟩] } := by
  simp [step, hrun, stepRunning, hw, hv]

theorem step_of_front {s : Sys T} {i : Nat} {ev : Event} {q : List Event} (hrun : s.aborted = false)
    (hw : s.workerList[i]? = some ⟨ev :: q, none⟩) :
    step I (.front i) s = some (s.setWorker i ⟨ev :: q, some (ev, I.dispatch ev)⟩) := by
  simp [step, hrun, stepRunning, hw]

theorem getElem?_setWorker {s : Sys T} {i : Nat} {w w' : WorkerContext T} (h : s.workerList[i]? = some w) :
    (s.setWorker i w').workerList[i]? = some w' :=
  List.getElem?_set_self (List.getElem?_eq_some_iff.mp h).1

theorem set_modify {α : Type*} (l : List α) (i : Nat) (f : α → α) (a : α) :
    (l.modify i f).set i a = l.set i a := by
  refine List.ext_getElem? fun j => ?_
  by_cases hij : i = j
  · subst hij
    simp [List.getElem?_set]
  · simp [hij]

def Label.isPut : Label → Bool
  | .put _ => true
  | _ => false

/-- No event is put. -/
def Label.quiet (l : Label) : Prop := ∀ ev, l ≠ .put ev

theorem quiet_of_not_put {l : Label} (h : l.isPut = false) : l.quiet := by
  rintro ev rfl
  cases h

theorem worker_finishes (env : Env) {i : Nat} {ev₀ ev : Event} {q : List Event}
    (hty : ev.type ≠ .terminateProcess) (n : Nat) (c : Ctl) (s : Sys Ctl) (hn : c.rank = n)
    (hc : c.Serves env ev) (hrun : s.aborted = false)
    (hw : s.workerList[i]? = some ⟨ev₀ :: q, some (ev, c)⟩) :
    ∃ ls os coll finished, Runs (step (points env)) (fun _ => Label.quiet) s ls
      { s.setWorker i ⟨q, none⟩ with os := os, coll := coll, finished := finished } := by
  induction n using Nat.strong_induction_on generalizing c s with
  | _ n ih =>
    by_cases hdone : ∃ rtn, c = .done rtn
    · obtain ⟨rtn, rfl⟩ := hdone
      exact ⟨[.pop i], _, _, _, .single (quiet_of_not_put rfl) (step_of_pop hrun hw rfl)⟩
    · obtain ⟨ch, c', st', hsolo⟩ := solo_of_serves env s.store hty hc fun rtn h => hdone ⟨rtn, h⟩
      have hstep := hsolo.acts.cstep hc.parent hsolo.choice.1
      obtain ⟨op, k, x, hv, ha, rfl, rfl⟩ := hsolo.acts
      have hjob := (Sys.getElem?_eq_job hw).1
      have ht : s.thread (.worker i) = some c := by simp [Sys.thread, hjob]
      have hcall := step_of_call (I := points env) hrun ht hv ha
      have hw' : (s.setThread (.worker i) (k x.1)).workerList[i]? =
          some ⟨ev₀ :: q, some (ev, k x.1)⟩ := by
        simp [Sys.setThread, hw]
      obtain ⟨ls, os, coll, finished, hruns⟩ := ih (k x.1).rank (hn ▸ hstep.rank_lt hc) (k x.1)
        ((s.setThread (.worker i) (k x.1)).setStore x.2) rfl (hstep.serves hc) hrun hw'
      refine ⟨.call (.worker i) ch :: ls, os, coll, finished, ?_⟩
      have hset : ((s.setThread (.worker i) (k x.1)).setStore x.2).setWorker i ⟨q, none⟩ =
          { s.setWorker i ⟨q, none⟩ with os := x.2.os, coll := x.2.coll } := by
        simp only [Sys.setWorker, Sys.setStore, Sys.setThread, set_modify]
      rw [hset] at hruns
      have hsingle : Runs (step (points env)) (fun _ => Label.quiet) s [.call (.worker i) ch] _ :=
        .single (quiet_of_not_put rfl) hcall
      exact hsingle.trans hruns

/-- Every worker of a running service waits for an event. -/
structure Sys.Idle (W : Nat) (s : Sys T) : Prop where
  workers : s.workerList = List.replicate W ⟨[], none⟩
  index : ∃ n < W, s.workerIndex = n
  max : s.workerMax = W
  running : s.aborted = false

section

variable {W : Nat} {s : Sys Ctl} {ev : Event}

theorem idle_boot (hW : 1 ≤ W) (coll : List Doc) (os : Os) : (Sys.boot W coll os : Sys T).Idle W where
  workers := rfl
  index := ⟨0, hW, rfl⟩
  max := rfl
  running := rfl

theorem taken_of_idle (env : Env) (h : s.Idle W) (ev : Event) :
    ∃ n s₁ s₂, n < W ∧ step (points env) (.put ev) s = some s₁ ∧
      Runs (step (points env)) (fun _ => Label.quiet) s₁ [.front n] s₂ ∧ s₂.aborted = false ∧
      s₂.workerList = (List.replicate W ⟨[], none⟩).set n ⟨[ev], some (ev, Ctl.start ev)⟩ ∧
      ev ∈ s₂.accepted ∧ s₂.workerMax = W ∧ ∃ m < W, s₂.workerIndex = m := by
  obtain ⟨n, hn, hidx⟩ := h.index
  have hget : s.workerList[n]? = some ⟨[], none⟩ := by
    rw [h.workers, List.getElem?_replicate, if_pos hn]
  have hput : step (points env) (.put ev) s = some { s.setWorker n ⟨[ev], none⟩ with
      workerIndex := (s.workerIndex + 1).tmod s.workerMax
      accepted := s.accepted ++ [ev] } := by
    simp [step, h.running, stepRunning, putData, hidx, hget]
  refine ⟨n, _, _, hn, hput,
    .single (quiet_of_not_put rfl) (step_of_front h.running (getElem?_setWorker hget)),
    h.running, ?_, ?_, h.max, (n + 1) % W, Nat.mod_lt _ (by omega), ?_⟩
  · simp [Sys.setWorker, h.workers, points]
  · exact List.mem_append_right _ (List.mem_singleton_self ev)
  · show (s.workerIndex + 1).tmod s.workerMax = _
    rw [hidx, h.max]
    exact (Int.ofNat_tmod (n + 1) W).symm

theorem idle_of_event (env : Env) (h : s.Idle W) (hty : ev.type ≠ .terminateProcess) :
    ∃ s₁ ls s₂, step (points env) (.put ev) s = some s₁ ∧
      Runs (step (points env)) (fun _ => Label.quiet) s₁ ls s₂ ∧ s₂.Idle W := by
  obtain ⟨n, s₁, s₂, hn, hput, hfront, hrun, hworkers, -, hmax, hidx⟩ := taken_of_idle env h ev
  have hw : s₂.workerList[n]? = some ⟨[ev], some (ev, Ctl.start ev)⟩ := by
    rw [hworkers]
    exact List.getElem?_set_self (by simpa using hn)
  obtain ⟨ls, os, coll, finished, hruns⟩ :=
    worker_finishes env hty _ _ s₂ rfl (Ctl.serves_start env ev) hrun hw
  refine ⟨s₁, _, _, hput, hfront.trans hruns, ?_, hidx, hmax, hrun⟩
  show s₂.workerList.set n _ = _
  rw [hworkers, List.set_set]
  refine List.ext_getElem? fun j => ?_
  by_cases hj : n = j
  · subst hj
    simp [hn]
  · rw [List.getElem?_set_ne hj]

theorem abort_of_event (env : Env) (h : s.Idle W) (hty : ev.type = .terminateProcess) :
    ∃ s₁ ls s₂, step (points env) (.put ev) s = some s₁ ∧
      Runs (step (points env)) (fun _ => Label.quiet) s₁ ls s₂ ∧ s₂.aborted = true ∧ ev ∈ s₂.accepted := by
  obtain ⟨n, s₁, s₂, hn, hput, hfront, hrun, hworkers, hmem, -⟩ := taken_of_idle env h ev
  have hw : s₂.workerList[n]? = some ⟨[ev], some (ev, Ctl.start ev)⟩ := by
    rw [hworkers]
    exact List.getElem?_set_self (by simpa using hn)
  have hjob := (Sys.getElem?_eq_job hw).1
  have hstart : Ctl.start ev = .asserting := by
    unfold Ctl.start
    rw [hty]
  have habort : step (points env) (.abort n) s₂ = some { s₂ with aborted := true } := by
    simp [step, hrun, stepRunning, hjob, hstart, points, Ctl.view, View.call?]
  have hsingle : Runs (step (points env)) (fun _ => Label.quiet) s₂ [.abort n] _ :=
    .single (quiet_of_not_put rfl) habort
  exact ⟨s₁, _, _, hput, hfront.trans hsingle, rfl, hmem⟩

end

end PullStream
