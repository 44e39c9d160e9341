import PullStream.Base.Exec
import PullStream.Control.Conf
/-!
# Functions running alone, whatever the calls come to

`exec (answer _) ok` runs a function of the service alone, the outcomes of its calls being chosen by the
surroundings and restricted by `ok`. Over control points such a run is a sequence of `Acts` (`exec_code`).
-/

namespace PullStream

open ServerBiz ProcessCtl Prog

/-- Driver calls and forks succeed. -/
def succeeds (_ : Call) (ch : Choice) (_ : Store) : Bool := decide (ch ≠ .dbFail ∧ ch ≠ .forkFail)

/-- Every call succeeds, and a fork returns a pid that no record has. -/
def succeedsFresh (_ : Call) (ch : Choice) (st : Store) : Bool :=
  match ch with
  | .dbFail | .forkFail => false
  | .pid p => p ∉ st.coll.map (·.pid)
  | _ => true

section

variable {env : Env} {ok : Call → Choice → Store → Bool} {xs : List Choice} {c : Ctl} {st : Store}
  {r : Int × Store}

theorem exec_code (h : exec (answer env.shown) ok xs (c.code env) st = some r) :
    (∃ rtn, c = .done rtn ∧ xs = [] ∧ r = (rtn, st)) ∨
      ∃ op ch xs' c' st', xs = ch :: xs' ∧ (c.view env).call? = some op ∧ ok op ch st = true ∧
        Acts env st c ch c' st' ∧ exec (answer env.shown) ok xs' (c'.code env) st' = some r := by
  obtain ⟨rtn, hv, hxs, hr⟩ | ⟨op, k, ch, xs', y, hv, hxs, hok, hy, hrest⟩ :=
    exec_of_represents (Ctl.code_represents env) h
  · exact .inl ⟨rtn, view_ret hv, hxs, hr⟩
  · exact .inr ⟨op, ch, xs', k y.1, y.2, hxs, by rw [hv]; rfl, hok, ⟨op, k, y, hv, hy, rfl, rfl⟩, hrest⟩

theorem exec_step (h : exec (answer env.shown) ok xs (c.code env) st = some r) (hc : ∀ rtn, c ≠ .done rtn) :
    ∃ op ch xs' c' st', xs = ch :: xs' ∧ (c.view env).call? = some op ∧ ok op ch st = true ∧
      Acts env st c ch c' st' ∧ exec (answer env.shown) ok xs' (c'.code env) st' = some r := by
  obtain ⟨rtn, rfl, -⟩ | hstep := exec_code h
  · exact absurd rfl (hc rtn)
  · exact hstep

theorem exec_done {rtn : Int} (h : exec (answer env.shown) ok xs ((Ctl.done rtn).code env) st = some r) :
    xs = [] ∧ r = (rtn, st) :=
  exec_ret.mp h

end

/-! ### What the scheduler calls -/

/-- The scheduler makes no assertion and inserts nothing. -/
def Call.ofScheduler : Call → Bool
  | .insert _ | .assertFail => false
  | _ => true

theorem calls_spawnProcessI (env : Env) (p : ProcessInfo) : (spawnProcessI env p).Calls (·.ofScheduler = true) := by
  refine calls_bind ⟨rfl, fun _ => trivial⟩ fun (pid : Int) => ?_
  split_ifs
  · trivial
  · refine ⟨rfl, fun (done : Bool) => ?_⟩
    cases done <;> trivial
  · exact ⟨rfl, fun _ => trivial⟩

theorem calls_detectLoop (env : Env) (l : List ProcessInfo) :
    (detectLoop env l).Calls (·.ofScheduler = true) := by
  induction l with
  | nil => trivial
  | cons r l ih =>
    refine calls_bind ⟨rfl, fun _ => trivial⟩ fun exist => ?_
    split_ifs
    · exact ih
    · refine calls_bind ⟨rfl, fun found => ?_⟩ fun (found, info) => ?_
      · cases found <;> trivial
      · dsimp only
        split_ifs
        · exact calls_bind (calls_spawnProcessI env info) fun _ => ih
        · exact ih

theorem calls_processAliveDetect (env : Env) : (processAliveDetect env).Calls (·.ofScheduler = true) := by
  refine calls_bind ⟨rfl, fun _ => trivial⟩ fun (code, processes) => ?_
  exact calls_bind (calls_detectLoop env processes) fun _ => trivial

end PullStream
