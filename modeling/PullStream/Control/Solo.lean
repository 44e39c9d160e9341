import PullStream.Control.Conf
/-!
# Functions running alone

A function of the service that runs alone gets the answers of `answerAlone`: calls succeed and forks return
fresh pids. `runEvents` executes events one after another in this way. A function for an event other than
a termination always has a next step (`solo_of_serves`) and returns after at most three (`Ctl.rank`), so
what its points have in common at every step holds when it returns (`run_of_serves`).
-/

namespace PullStream

open Function Transition

def maxPid : List Int → Int
  | [] => 0
  | p :: l => max p (maxPid l)

/-- A pid that no process has or had. -/
def Os.freshPid (os : Os) : Int := maxPid (os.procs.map (·.pid) ++ os.used) + 1

/-- Calls succeed, and forks return fresh pids. -/
def choiceAlone (st : Store) : Call → Choice
  | .fork _ => .pid st.os.freshPid
  | .execl _ => .execFail
  | _ => .ok

def answerAlone (shown : String → Str → Str) (c : Call) (st : Store) : Option (Reply c × Store) :=
  answer shown c (choiceAlone st c) st

/-- Execute events one after another. -/
def runEvents (env : Env) : List Event → Store → Option Store
  | [], st => some st
  | ev :: evs, st =>
    (Prog.run (answerAlone env.shown) (ServerBiz.dispatch env ev) st).bind fun x => runEvents env evs x.2

theorem le_maxPid {l : List Int} {p : Int} (h : p ∈ l) : p ≤ maxPid l := by
  induction l with
  | nil => cases h
  | cons q l ih =>
    rw [maxPid]
    rcases List.mem_cons.mp h with rfl | h
    · omega
    · have := ih h
      omega

theorem maxPid_nonneg (l : List Int) : 0 ≤ maxPid l := by
  induction l with
  | nil => exact Int.le_refl 0
  | cons q l ih =>
    rw [maxPid]
    omega

theorem freshPid_pos (os : Os) : 0 < os.freshPid := by
  have := maxPid_nonneg (os.procs.map (·.pid) ++ os.used)
  unfold Os.freshPid
  omega

theorem freshPid_free (os : Os) : os.alive os.freshPid = false := by
  refine Bool.eq_false_iff.mpr fun halive => ?_
  obtain ⟨a, ha, hp⟩ := alive_iff.mp halive
  have hle := le_maxPid (List.mem_append_left os.used (List.mem_map_of_mem (f := (·.pid)) ha))
  unfold Os.freshPid at hp
  omega

/-- A step of a thread that runs alone. -/
def Solo (env : Env) (st : Store) (c : Ctl) (ch : Choice) (c' : Ctl) (st' : Store) : Prop :=
  ∃ op k x, c.view env = .call op k ∧ ch = choiceAlone st op ∧ answerAlone env.shown op st = some x ∧
    k x.1 = c' ∧ x.2 = st'

/-- The most steps a worker takes before the function returns. -/
def Ctl.rank : Ctl → Nat
  | .spawnQuery _ | .removeQuery _ | .reloadQuery _ => 3
  | .spawnFork _ | .removeDelete _ | .reloadFork _ => 2
  | .spawnInsert _ | .removeKill _ | .reloadUpdate _ => 1
  | _ => 0

section

variable {env : Env} {st st' : Store} {c c' : Ctl} {ch : Choice} {ev : Event}

theorem Solo.acts (h : Solo env st c ch c' st') : Acts env st c ch c' st' := by
  obtain ⟨op, k, x, hv, rfl, ha, hk, hst⟩ := h
  exact ⟨op, k, x, hv, ha, hk, hst⟩

theorem choiceAlone_ok (st : Store) (op : Call) :
    choiceAlone st op ≠ .dbFail ∧ choiceAlone st op ≠ .forkFail := by
  cases op <;> exact ⟨nofun, nofun⟩

theorem Solo.choice (h : Solo env st c ch c' st') : ch ≠ .dbFail ∧ ch ≠ .forkFail := by
  obtain ⟨op, -, -, -, rfl, -⟩ := h
  exact choiceAlone_ok st op

theorem answerAlone_some (shown : String → Str → Str) (st : Store) {op : Call} (h : op ≠ .assertFail) :
    ∃ x, answerAlone shown op st = some x := by
  cases op with
  | assertFail => exact absurd rfl h
  | fork param => exact ⟨_, if_pos ⟨freshPid_pos st.os, freshPid_free st.os⟩⟩
  | _ => exact ⟨_, rfl⟩

theorem CStep.rank_lt (h : CStep env st c ch c' st') (hc : c.Serves env ev) : c'.rank < c.rank := by
  cases h with
  | _ => first | exact hc.elim | exact Nat.lt_succ_self _ | exact Nat.succ_pos _

theorem solo_of_serves (env : Env) (st : Store) (hty : ev.type ≠ .terminateProcess) (hc : c.Serves env ev)
    (hdone : ∀ rtn, c ≠ .done rtn) : ∃ ch c' st', Solo env st c ch c' st' := by
  cases hv : c.view env with
  | ret rtn => exact absurd (view_ret hv) (hdone rtn)
  | call op k =>
    have hop : op ≠ .assertFail := by
      rintro rfl
      have hassert := call?_assertFail (show (c.view env).call? = _ by rw [hv]; rfl)
      rw [hassert] at hc
      exact hty hc
    obtain ⟨x, hx⟩ := answerAlone_some env.shown st hop
    exact ⟨_, _, _, op, k, x, hv, rfl, hx, rfl, rfl⟩

theorem run_solo (h : Solo env st c ch c' st') :
    Prog.run (answerAlone env.shown) (c.code env) st = Prog.run (answerAlone env.shown) (c'.code env) st' := by
  obtain ⟨op, k, x, hv, -, ha, rfl, rfl⟩ := h
  have hrep := Ctl.code_represents env c
  rw [hv] at hrep
  cases hcode : c.code env with
  | ret a =>
    rw [hcode] at hrep
    cases hrep
  | call op' k' =>
    rw [hcode] at hrep
    cases hrep
    exact Prog.run_call (answerAlone env.shown) ha

/-- **What the steps of a function keep holds when it returns.** -/
theorem run_of_serves (P : Ctl → Store → Prop) (hty : ev.type ≠ .terminateProcess)
    (hP : ∀ c ch c' st st', CStep env st c ch c' st' → ch ≠ .forkFail → c.Serves env ev → P c st → P c' st')
    (n : Nat) (c : Ctl) (st : Store) (hn : c.rank ≤ n) (hc : c.Serves env ev) (hp : P c st) :
    ∃ rtn st', Prog.run (answerAlone env.shown) (c.code env) st = some (rtn, st') ∧ P (.done rtn) st' := by
  induction n generalizing c st with
  | zero =>
    by_cases hdone : ∃ rtn, c = .done rtn
    · obtain ⟨rtn, rfl⟩ := hdone
      exact ⟨rtn, st, rfl, hp⟩
    · obtain ⟨ch, c', st', hsolo⟩ := solo_of_serves env st hty hc fun rtn h => hdone ⟨rtn, h⟩
      have hlt := (hsolo.acts.cstep hc.parent hsolo.choice.1).rank_lt hc
      omega
  | succ n ih =>
    by_cases hdone : ∃ rtn, c = .done rtn
    · obtain ⟨rtn, rfl⟩ := hdone
      exact ⟨rtn, st, rfl, hp⟩
    · obtain ⟨ch, c', st', hsolo⟩ := solo_of_serves env st hty hc fun rtn h => hdone ⟨rtn, h⟩
      have hstep := hsolo.acts.cstep hc.parent hsolo.choice.1
      have hlt := hstep.rank_lt hc
      rw [run_solo hsolo]
      exact ih c' st' (by omega) (hstep.serves hc) (hP c ch c' st st' hstep hsolo.choice.2 hc hp)

end

end PullStream
