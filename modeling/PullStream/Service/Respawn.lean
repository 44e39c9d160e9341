import PullStream.Service.Pids
import PullStream.Control.Intact
/-!
# Respawning a stream

`spawn_process_i` gets a record that was found before, forks, and writes the pid of the new process into
the first record of the sid. Between the look and the update the thread is in the *window* of the sid
(`Ctl.window`), and nothing keeps other threads out of it. `process_reload` and `process_alive_detect`
come into a window by finding a record (`CStep.window`), and there they fork and write the new pid
(`CStep.in_window`).

`Ctl.target` is the sid whose records and processes a step can change; a step with another target leaves
the records of a sid alone and forks nothing for it (`CStep.other`).
-/

namespace PullStream

/-- A call by which a respawn of the sid goes on: the fork, or the update of the record. -/
def Call.respawns (k : Str) : Call → Bool
  | .fork param => cStr param.sid = k
  | .update (.sid j) _ => j = k
  | _ => false

/-- The sid a thread is respawning: it has found the record and not yet written a new pid. -/
def Ctl.window : Ctl → Option Str
  | .reloadFork p | .reloadUpdate p | .detectFork p _ | .detectUpdate p _ => some (cStr p.sid)
  | _ => none

/-- The look made at a point, on the way into a window, finds the record: `process_reload` looks by the
sid, the scheduler by the pid it has found dead. -/
def Ctl.Finds (coll : List Doc) (d : Doc) : Ctl → Prop
  | .reloadQuery sid => (recs (cStr sid) coll).head? = some d
  | .detectLookup r _ => coll.find? (Query.pid r.pid).matches = some d
  | _ => False

/-- The sid whose records or processes a point adds to or removes from. -/
def Ctl.target : Ctl → Option Str
  | .spawnFork p | .spawnInsert p | .removeDelete p | .reloadFork p | .reloadUpdate p | .detectFork p _
  | .detectUpdate p _ => some (cStr p.sid)
  | _ => none

@[simp] theorem Ctl.window_detectNext (l : List ProcessInfo) : (detectNext l).window = none := by
  cases l <;> rfl

@[simp] theorem Ctl.window_start (ev : Event) : (start ev).window = none := by
  unfold start
  cases ev.type <;> rfl

theorem Ctl.target_of_window {c : Ctl} {k : Str} (h : c.window = some k) : c.target = some k := by
  cases c <;> first | exact h | cases h

section

variable {env : Env} {st st' : Store} {c c' : Ctl} {ch : Choice} {k : Str}

theorem CStep.other (h : CStep env st c ch c' st') (hk : c.target ≠ some k) :
    recs k st'.coll = recs k st.coll ∧ (st'.os.live k = st.os.live k ∨
      ∃ p, c = .removeKill p ∧ st'.os.live k = (st.os.live k).filter fun q => q ≠ p.pid) := by
  have hne : ∀ p : ProcessInfo, c.target = some (cStr p.sid) → k ≠ cStr p.sid := by
    intro p hp heq
    exact hk (hp.trans (congrArg some heq.symm))
  cases h with
  | @spawnForked p x | @reloadForked p x | @detectForked p rest x =>
    refine ⟨rfl, .inl ?_⟩
    rw [live_add, if_neg]
    simpa [Proc.runs] using (hne p rfl).symm
  | @insert p =>
    refine ⟨?_, .inl rfl⟩
    rw [recs_insert, if_neg]
    exact (hne p rfl).symm
  | @delete p => exact ⟨recs_dropRec_ne (hne p rfl), .inl rfl⟩
  | @reloadUpdate p | @detectUpdate p rest => exact ⟨recs_setPid_ne (hne p rfl), .inl rfl⟩
  | kill => exact ⟨rfl, .inr ⟨_, rfl, live_drop⟩⟩
  | _ => exact ⟨rfl, .inl rfl⟩

theorem CStep.live_subset (h : CStep env st c ch c' st') (hk : c.target ≠ some k) :
    ∀ x ∈ st'.os.live k, x ∈ st.os.live k := by
  obtain ⟨-, hlive | ⟨p, -, hlive⟩⟩ := h.other hk
  · rw [hlive]
    exact fun _ => id
  · rw [hlive]
    exact fun x hx => (List.mem_filter.mp hx).1

/-- **A thread comes into a window by finding a record.** -/
theorem CStep.window (hsid : env.KeepsSids) (h : CStep env st c ch c' st') (hc' : c'.window = some k) :
    c.window = some k ∨ st' = st ∧ c'.pending = none ∧ ∃ d, c.Finds st.coll d ∧ cStr d.sid = k := by
  cases h with
  | @lookupFound r rest d hd | @reloadFound sid d hd =>
    have hkey : cStr (env.shown "sid" d.sid) = k := Option.some.inj hc'
    rw [hsid] at hkey
    exact .inr ⟨rfl, rfl, d, hd, hkey⟩
  | detectForked | reloadForked => exact .inl hc'
  | snapshot | probeAlive | lookupAbsent | detectForkFailed | detectUpdate =>
    rw [Ctl.window_detectNext] at hc'
    cases hc'
  | _ => cases hc'

theorem CStep.in_window (h : CStep env st c ch c' st') (hc : c.window = some k) (hfork : ch ≠ .forkFail) :
    (∃ x, ch = .pid x ∧ c.pending = none ∧ c'.window = some k ∧ c'.pending = some x ∧
      st'.coll = st.coll ∧ st'.os.live k = st.os.live k ++ [x]) ∨
    ∃ x, c.pending = some x ∧ c'.window = none ∧ st'.coll = setPid k x st.coll ∧ st'.os = st.os := by
  cases h with
  | @reloadForked p x | @detectForked p rest x =>
    have hk : cStr p.sid = k := Option.some.inj hc
    refine .inl ⟨x, rfl, rfl, hc, rfl, rfl, ?_⟩
    rw [live_add, if_pos]
    simpa [Proc.runs] using hk
  | @reloadUpdate p =>
    obtain rfl := Option.some.inj hc
    exact .inr ⟨p.pid, rfl, rfl, rfl, rfl⟩
  | @detectUpdate p rest =>
    obtain rfl := Option.some.inj hc
    exact .inr ⟨p.pid, rfl, Ctl.window_detectNext rest, rfl, rfl⟩
  | reloadForkFailed | detectForkFailed => exact absurd rfl hfork
  | _ => cases hc

theorem next_window {s : Sys Ctl} {τ : Tid} (ht : s.thread τ = some c) (hc : c.window = some k) :
    (s.next (points env) τ).any (Call.respawns k) = true := by
  rw [Sys.next, ht]
  cases c with
  | reloadFork | reloadUpdate | detectFork | detectUpdate => exact decide_eq_true (Option.some.inj hc)
  | _ => cases hc

end

end PullStream
