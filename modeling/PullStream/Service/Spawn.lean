import PullStream.Control.Alone
/-!
# What the spawning functions return, and what they did

Both spawning functions write to the collection after the fork and drop the result of the write. So
`spawn_process` does all or nothing unless its insert fails, and `spawn_process_i` does unless its update
fails or finds no record of the sid (`spawn_all_or_nothing_iff`).
-/

namespace PullStream

open ServerBiz ProcessCtl Prog

/-- The calls come to whatever they may. -/
def anyOutcome (_ : Call) (_ : Choice) (_ : Store) : Bool := true

/-- The process `p` is live, was forked for `param`, and was not there before. -/
def Store.Started (st st' : Store) (param : ProcessInfo) (p : Int) : Prop :=
  st.os.alive p = false ∧ ⟨p, some param⟩ ∈ st'.os.procs

/-- `ERROR_OK` is returned only if the process forked is live and recorded, and with any other result
nothing has changed. -/
def SpawnsOrNot (param : ProcessInfo) (st : Store) (rtn : Int) (st' : Store) : Prop :=
  (rtn = ErrorCode.errorOk.val → ∃ p, st.Started st' param p ∧ ∃ d ∈ st'.coll, d.sid = cStr param.sid ∧ d.pid = p) ∧
    (rtn ≠ ErrorCode.errorOk.val → st'.os.procs = st.os.procs ∧ st'.coll = st.coll)

/-- `ERROR_OK` is returned only if the record of the sid holds the pid of the process forked, and with any
other result there is no new process. -/
def RespawnsOrNot (param : ProcessInfo) (st : Store) (rtn : Int) (st' : Store) : Prop :=
  (rtn = ErrorCode.errorOk.val → ∃ p, st.Started st' param p ∧
    ∃ d, (recs (cStr param.sid) st'.coll).head? = some d ∧ d.pid = p) ∧
    (rtn ≠ ErrorCode.errorOk.val → st'.os.procs = st.os.procs)

/-- Where the fork succeeds with `p` and the insert fails, `p` is recorded for the sid already. -/
def insertsForked (param : ProcessInfo) (st : Store) : List Choice → Prop
  | [_, .pid p, .dbFail] => ∃ d ∈ st.coll, d.sid = cStr param.sid ∧ d.pid = p
  | _ => True

/-- Where the fork succeeds with `p`, the update succeeds and the sid has a record, or this record holds
`p` already. -/
def updatesForked (param : ProcessInfo) (st : Store) : List Choice → Prop
  | [.pid p, write] => ∃ d, (recs (cStr param.sid) st.coll).head? = some d ∧ (write = .ok ∨ d.pid = p)
  | _ => True

section

variable {env : Env} {param : ProcessInfo} {st : Store} {xs : List Choice} {rtn : Int} {st' : Store} {x : Int}

/-- The outcomes of `spawn_process`. -/
inductive SpawnOutcome (env : Env) (param : ProcessInfo) (st : Store) : List Choice → Int → Store → Prop
  | found {d : Doc} (hd : (recs (cStr param.sid) st.coll).head? = some d) :
      SpawnOutcome env param st [.ok] ErrorCode.errorStreamExist st
  | forkFailed {query : Choice} (habs : query ≠ .dbFail → recs (cStr param.sid) st.coll = []) :
      SpawnOutcome env param st [query, .forkFail] ErrorCode.recErrorForkFailed st
  | inserted {query : Choice} {x : Int} (habs : query ≠ .dbFail → recs (cStr param.sid) st.coll = [])
      (hfree : st.os.alive x = false) :
      SpawnOutcome env param st [query, .pid x, .ok] ErrorCode.errorOk
        ⟨st.coll ++ [processDoc env { param with pid := x }], st.os.add ⟨x, some param⟩⟩
  | insertFailed {query : Choice} {x : Int} (habs : query ≠ .dbFail → recs (cStr param.sid) st.coll = [])
      (hfree : st.os.alive x = false) :
      SpawnOutcome env param st [query, .pid x, .dbFail] ErrorCode.errorOk
        ⟨st.coll, st.os.add ⟨x, some param⟩⟩

theorem spawnFork_outcome {query : Choice} (habs : query ≠ .dbFail → recs (cStr param.sid) st.coll = [])
    (h : exec (answer env.shown) anyOutcome xs ((Ctl.spawnFork param).code env) st = some (rtn, st')) :
    SpawnOutcome env param st (query :: xs) rtn st' := by
  obtain ⟨op, ch, xs, c, st₁, rfl, hop, -, hacts, h⟩ := exec_step h nofun
  obtain ⟨op', k, y, hv, hy, rfl, rfl⟩ := hacts
  cases hv
  obtain ⟨rfl, rfl⟩ | ⟨x, hx, hfree, rfl, rfl⟩ := answer_fork hy
  · obtain ⟨rfl, hr⟩ := exec_done h
    cases hr
    exact .forkFailed habs
  · dsimp only at h
    rw [if_neg (Int.not_lt.mpr (Int.le_of_lt hx)), if_pos hx] at h
    obtain ⟨op, ch, xs, c, st₁, rfl, hop, -, hacts, h⟩ := exec_step h nofun
    obtain ⟨op', k, y, hv, hy, rfl, rfl⟩ := hacts
    cases hv
    obtain ⟨rfl, hr⟩ := exec_done h
    cases hr
    cases ch <;> cases hy
    · exact .inserted habs hfree
    · exact .insertFailed habs hfree

/-- **What `spawn_process` can do.** -/
theorem spawn_outcome (h : exec (answer env.shown) anyOutcome xs (spawnProcess env param) st = some (rtn, st')) :
    SpawnOutcome env param st xs rtn st' := by
  replace h : exec (answer env.shown) anyOutcome xs ((Ctl.spawnQuery param).code env) st = some (rtn, st') := h
  obtain ⟨op, ch, xs, c, st₁, rfl, hop, -, hacts, h⟩ := exec_step h nofun
  by_cases hdb : ch = .dbFail
  · subst hdb
    have hparent : (Ctl.spawnQuery param).Parent := trivial
    obtain ⟨hfail, rfl⟩ := hacts.fstep hparent
    cases hfail
    exact spawnFork_outcome (fun hne => absurd rfl hne) h
  · have hquery := hacts.cstep trivial hdb
    cases hquery with
    | spawnFound hd =>
      obtain ⟨rfl, hr⟩ := exec_done h
      cases hr
      exact .found hd
    | spawnAbsent habs => exact spawnFork_outcome (fun _ => habs) h

/-- The outcomes of `spawn_process_i`. -/
inductive RespawnOutcome (param : ProcessInfo) (st : Store) : List Choice → Int → Store → Prop
  | forkFailed : RespawnOutcome param st [.forkFail] ErrorCode.recErrorForkFailed st
  | updated {x : Int} (hfree : st.os.alive x = false) :
      RespawnOutcome param st [.pid x, .ok] ErrorCode.errorOk
        ⟨setPid (cStr param.sid) x st.coll, st.os.add ⟨x, some param⟩⟩
  | updateFailed {x : Int} (hfree : st.os.alive x = false) :
      RespawnOutcome param st [.pid x, .dbFail] ErrorCode.errorOk ⟨st.coll, st.os.add ⟨x, some param⟩⟩

/-- **What `spawn_process_i` can do.** -/
theorem respawn_outcome (h : exec (answer env.shown) anyOutcome xs (spawnProcessI env param) st = some (rtn, st')) :
    RespawnOutcome param st xs rtn st' := by
  obtain ⟨ch, xs, y, rfl, -, hy, h⟩ := exec_call.mp h
  obtain ⟨rfl, rfl⟩ | ⟨x, hx, hfree, rfl, rfl⟩ := answer_fork hy
  · obtain ⟨rfl, hr⟩ := exec_ret.mp h
    cases hr
    exact .forkFailed
  · replace h : exec (answer env.shown) anyOutcome xs (if x < 0 then _ else if 0 < x then _ else _ : Act Int) _ = _ := h
    rw [if_neg (Int.not_lt.mpr (Int.le_of_lt hx)), if_pos hx] at h
    obtain ⟨ch, xs, y, rfl, -, hy, h⟩ := exec_call.mp h
    cases ch <;> cases hy
    · obtain ⟨rfl, hr⟩ := exec_ret.mp h
      cases hr
      exact .updated hfree
    · obtain ⟨rfl, hr⟩ := exec_ret.mp h
      cases hr
      exact .updateFailed hfree

theorem started_add (hfree : st.os.alive x = false) {coll : List Doc} :
    st.Started ⟨coll, st.os.add ⟨x, some param⟩⟩ param x :=
  ⟨hfree, List.mem_append_right _ List.mem_cons_self⟩

theorem eq_of_started {coll : List Doc} {p : Int}
    (h : st.Started ⟨coll, st.os.add ⟨x, some param⟩⟩ param p) : p = x := by
  obtain ⟨hfree, hmem⟩ := h
  rcases List.mem_append.mp hmem with hmem | hmem
  · rw [alive_iff.mpr ⟨_, hmem, rfl⟩] at hfree
    cases hfree
  · exact congrArg Proc.pid (List.mem_singleton.mp hmem)

theorem spawnsOrNot_iff (h : SpawnOutcome env param st xs rtn st') :
    SpawnsOrNot param st rtn st' ↔ insertsForked param st xs := by
  cases h with
  | found hd => exact iff_of_true ⟨nofun, fun _ => ⟨rfl, rfl⟩⟩ trivial
  | forkFailed habs => exact iff_of_true ⟨nofun, fun _ => ⟨rfl, rfl⟩⟩ trivial
  | @inserted query x habs hfree =>
    refine iff_of_true ⟨fun _ => ?_, fun hne => absurd rfl hne⟩ trivial
    refine ⟨x, started_add hfree, processDoc env { param with pid := x }, ?_, rfl, rfl⟩
    exact List.mem_append_right _ List.mem_cons_self
  | @insertFailed query x habs hfree =>
    constructor
    · intro h
      obtain ⟨p, hp, d, hd, hsid, hpid⟩ := h.1 rfl
      exact ⟨d, hd, hsid, hpid.trans (eq_of_started hp)⟩
    · rintro ⟨d, hd, hsid, hpid⟩
      exact ⟨fun _ => ⟨x, started_add hfree, d, hd, hsid, hpid⟩, fun hne => absurd rfl hne⟩

theorem respawnsOrNot_iff (h : RespawnOutcome param st xs rtn st') :
    RespawnsOrNot param st rtn st' ↔ updatesForked param st xs := by
  cases h with
  | forkFailed => exact iff_of_true ⟨nofun, fun _ => rfl⟩ trivial
  | @updated x hfree =>
    have hhead : (recs (cStr param.sid) (setPid (cStr param.sid) x st.coll)).head? =
        (recs (cStr param.sid) st.coll).head?.map fun d => { d with pid := x } := by
      rw [recs_setPid_self]
      cases recs (cStr param.sid) st.coll <;> rfl
    constructor
    · intro h
      obtain ⟨p, -, e, he, -⟩ := h.1 rfl
      obtain ⟨d, hd, -⟩ := Option.map_eq_some_iff.mp (hhead.symm.trans he)
      exact ⟨d, hd, .inl rfl⟩
    · rintro ⟨d, hd, -⟩
      refine ⟨fun _ => ⟨x, started_add hfree, { d with pid := x }, ?_, rfl⟩, fun hne => absurd rfl hne⟩
      exact hhead.trans (congrArg (Option.map _) hd)
  | @updateFailed x hfree =>
    constructor
    · intro h
      obtain ⟨p, hp, d, hd, hpid⟩ := h.1 rfl
      exact ⟨d, hd, .inr (hpid.trans (eq_of_started hp))⟩
    · rintro ⟨d, hd, hpid⟩
      exact ⟨fun _ => ⟨x, started_add hfree, d, hd, hpid.resolve_left nofun⟩, fun hne => absurd rfl hne⟩

end

/-- **Spawning is all or nothing if and only if the write after the fork records the process.** -/
theorem spawn_all_or_nothing_iff (env : Env) (param : ProcessInfo) (st : Store) :
    (∀ xs rtn st', exec (answer env.shown) anyOutcome xs (spawnProcess env param) st = some (rtn, st') →
      (SpawnsOrNot param st rtn st' ↔ insertsForked param st xs)) ∧
    ∀ xs rtn st', exec (answer env.shown) anyOutcome xs (spawnProcessI env param) st = some (rtn, st') →
      (RespawnsOrNot param st rtn st' ↔ updatesForked param st xs) :=
  ⟨fun _ _ _ h => spawnsOrNot_iff (spawn_outcome h), fun _ _ _ h => respawnsOrNot_iff (respawn_outcome h)⟩

/-! ### A failed insert, and an update without a record -/

def noRecord : Store := ⟨[], ⟨[], []⟩⟩

def insertFailedEnd : Int × Store :=
  (exec (answer sampleEnv.shown) anyOutcome [.ok, .pid 10, .dbFail]
    (spawnProcess sampleEnv (sampleInfo [1])) noRecord).get
    (by decide)

def updateMissedEnd : Int × Store :=
  (exec (answer sampleEnv.shown) anyOutcome [.pid 10, .ok]
    (spawnProcessI sampleEnv (sampleInfo [1])) noRecord).get (by decide)

theorem spawn_all_or_nothing_iff_unrecorded :
    (SpawnsOrNot (sampleInfo [1]) noRecord insertFailedEnd.1 insertFailedEnd.2 ↔
      insertsForked (sampleInfo [1]) noRecord [.ok, .pid 10, .dbFail]) ∧
    (RespawnsOrNot (sampleInfo [1]) noRecord updateMissedEnd.1 updateMissedEnd.2 ↔
      updatesForked (sampleInfo [1]) noRecord [.pid 10, .ok]) :=
  ⟨(spawn_all_or_nothing_iff sampleEnv (sampleInfo [1]) noRecord).1 _ _ _ rfl,
    (spawn_all_or_nothing_iff sampleEnv (sampleInfo [1]) noRecord).2 _ _ _ rfl⟩

theorem spawn_unrecorded :
    (¬ ∀ env param st xs rtn st', exec (answer env.shown) anyOutcome xs (spawnProcess env param) st = some (rtn, st') →
      SpawnsOrNot param st rtn st') ∧
    ¬ ∀ env param st xs rtn st', exec (answer env.shown) anyOutcome xs (spawnProcessI env param) st = some (rtn, st') →
      RespawnsOrNot param st rtn st' := by
  refine ⟨fun h => ?_, fun h => ?_⟩
  · have hspawn := h sampleEnv (sampleInfo [1]) noRecord [.ok, .pid 10, .dbFail] _ _
      (rfl : _ = some (insertFailedEnd.1, insertFailedEnd.2))
    obtain ⟨p, -, d, hd, -⟩ := hspawn.1 rfl
    cases hd
  · have hrespawn := h sampleEnv (sampleInfo [1]) noRecord [.pid 10, .ok] _ _
      (rfl : _ = some (updateMissedEnd.1, updateMissedEnd.2))
    obtain ⟨p, -, d, hd, -⟩ := hrespawn.1 rfl
    cases hd

end PullStream
