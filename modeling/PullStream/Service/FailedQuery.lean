import PullStream.Service.Spawn
import PullStream.Service.StreamId
/-!
# Failed queries, with spawns and removals executed one at a time

`MongoAdaptor::findOne` has one code for a failed query and for an empty result, and its callers take both
for absence. So `spawn_process` forks and inserts for a sid that is recorded already, and `remove_process`
answers that a recorded sid does not exist, exactly when the query that failed was about a recorded sid
(`failed_query_absent_iff`). A spawn whose fork fails as well does no harm.
-/

namespace PullStream

open ServerBiz ProcessCtl Prog Transition

/-- The two functions that begin by asking for the record of a sid. -/
inductive StoreOp where
  | spawnProcess (param : ProcessInfo)
  | removeProcess (info : ProcessInfo)

namespace StoreOp

def code (env : Env) : StoreOp → Act Int
  | .spawnProcess param => ProcessCtl.spawnProcess env param
  | .removeProcess info => ProcessCtl.removeProcess env info

/-- The sid asked for. -/
def key : StoreOp → Str
  | .spawnProcess param => cStr param.sid
  | .removeProcess info => cStr info.sid

/-- A spawn changes nothing if the sid has a record, and a removal answers that the stream does not exist
only if it has none. -/
def Truthful (st : Store) (rtn : Int) (st' : Store) : StoreOp → Prop
  | .spawnProcess param => recs (cStr param.sid) st.coll ≠ [] → st' = st
  | .removeProcess info => rtn = ErrorCode.recErrorStreamNotExist.val → recs (cStr info.sid) st.coll = []

end StoreOp

/-- A call of one of the functions, and what the calls made in it come to. -/
structure StoreCall where
  op : StoreOp
  choices : List Choice

def storeStep (env : Env) (l : StoreCall) (st : Store) : Option Store :=
  (exec (answer env.shown) anyOutcome l.choices (l.op.code env) st).map (·.2)

/-- Whatever the function returns is true. -/
def StoreCall.Truthful (env : Env) (st : Store) (l : StoreCall) : Prop :=
  ∀ r, exec (answer env.shown) anyOutcome l.choices (l.op.code env) st = some r → l.op.Truthful st r.1 r.2

/-- If the query fails, the sid has no record, or nothing comes of it because the fork fails too. -/
def StoreCall.missesNothing (st : Store) (l : StoreCall) : Prop :=
  l.choices.head? = some .dbFail → recs l.op.key st.coll = [] ∨ l.choices = [.dbFail, .forkFail]

/-- No sid has come to a second record. -/
def NoSecondRecord (coll coll' : List Doc) : Prop :=
  ∀ k, (recs k coll').length ≤ max 1 (recs k coll).length

section

variable {env : Env} {st st' : Store} {xs : List Choice} {rtn : Int} {info param : ProcessInfo} {l : StoreCall}

/-- The outcomes of `remove_process`. -/
inductive RemoveOutcome (env : Env) (info : ProcessInfo) (st : Store) : List Choice → Int → Store → Prop
  | queryFailed : RemoveOutcome env info st [.dbFail] ErrorCode.recErrorStreamNotExist st
  | absent (habs : recs (cStr info.sid) st.coll = []) :
      RemoveOutcome env info st [.ok] ErrorCode.recErrorStreamNotExist st
  | removed {d : Doc} (hd : (recs (cStr info.sid) st.coll).head? = some d) {coll : List Doc}
      (hcoll : coll = dropRec (cStr (env.shown "sid" d.sid)) st.coll ∨ coll = st.coll) {write : Choice} :
      RemoveOutcome env info st [.ok, write, .ok] ErrorCode.errorOk ⟨coll, st.os.drop d.pid⟩

theorem removeKill_outcome {p : ProcessInfo}
    (h : exec (answer env.shown) anyOutcome xs ((Ctl.removeKill p).code env) st = some (rtn, st')) :
    xs = [.ok] ∧ rtn = ErrorCode.errorOk ∧ st' = ⟨st.coll, st.os.drop p.pid⟩ := by
  obtain ⟨op, ch, xs, c, st₁, rfl, -, -, hacts, h⟩ := exec_step h nofun
  have hdb : ch ≠ .dbFail := by
    rintro rfl
    obtain ⟨op', k, y, hv, hy, -⟩ := hacts
    cases hv
    cases hy
  have hkill := hacts.cstep trivial hdb
  cases hkill
  obtain ⟨rfl, hr⟩ := exec_done h
  cases hr
  exact ⟨rfl, rfl, rfl⟩

/-- **What `remove_process` can do.** -/
theorem remove_outcome (h : exec (answer env.shown) anyOutcome xs (removeProcess env info) st = some (rtn, st')) :
    RemoveOutcome env info st xs rtn st' := by
  replace h : exec (answer env.shown) anyOutcome xs ((Ctl.removeQuery info).code env) st = some (rtn, st') := h
  obtain ⟨op, ch, xs, c, st₁, rfl, -, -, hacts, h⟩ := exec_step h nofun
  by_cases hdb : ch = .dbFail
  · subst hdb
    have hparent : (Ctl.removeQuery info).Parent := trivial
    obtain ⟨hfail, rfl⟩ := hacts.fstep hparent
    cases hfail
    obtain ⟨rfl, hr⟩ := exec_done h
    cases hr
    exact .queryFailed
  · have hquery := hacts.cstep trivial hdb
    cases hquery with
    | removeAbsent habs =>
      obtain ⟨rfl, hr⟩ := exec_done h
      cases hr
      exact .absent habs
    | @removeFound _ d hd =>
      obtain ⟨op, ch, xs, c, st₁, rfl, -, -, hacts, h⟩ := exec_step h nofun
      by_cases hdb : ch = .dbFail
      · subst hdb
        have hparent : (Ctl.removeDelete (d.seen env.shown)).Parent := trivial
        obtain ⟨hfail, rfl⟩ := hacts.fstep hparent
        cases hfail
        obtain ⟨rfl, rfl, rfl⟩ := removeKill_outcome h
        exact .removed hd (.inr rfl)
      · have hdelete := hacts.cstep trivial hdb
        cases hdelete
        obtain ⟨rfl, rfl, rfl⟩ := removeKill_outcome h
        exact .removed hd (.inl rfl)

theorem SpawnOutcome.truthful_iff (h : SpawnOutcome env param st xs rtn st') :
    (StoreOp.spawnProcess param).Truthful st rtn st' ↔ StoreCall.missesNothing st ⟨.spawnProcess param, xs⟩ := by
  have hforked : ∀ x query write coll, (query ≠ .dbFail → recs (cStr param.sid) st.coll = []) →
      ((StoreOp.spawnProcess param).Truthful st ErrorCode.errorOk ⟨coll, st.os.add ⟨x, some param⟩⟩ ↔
        StoreCall.missesNothing st ⟨.spawnProcess param, [query, .pid x, write]⟩) := by
    intro x query write coll habs
    constructor
    · intro h _
      by_contra hsome
      have hos := congrArg (fun st => st.os.procs.length) (h fun hnil => hsome (.inl hnil))
      simp [Os.add] at hos
    · intro h hsome
      by_cases hq : query = .dbFail
      · subst hq
        obtain hnil | hch := h rfl
        · exact absurd hnil hsome
        · simp at hch
      · exact absurd (habs hq) hsome
  cases h with
  | found hd =>
    refine iff_of_true (fun _ => rfl) fun hq => ?_
    cases hq
  | @forkFailed query habs =>
    refine iff_of_true (fun _ => rfl) fun hq => ?_
    obtain rfl : query = .dbFail := Option.some.inj hq
    exact .inr rfl
  | inserted habs hfree | insertFailed habs hfree => exact hforked _ _ _ _ habs

theorem RemoveOutcome.truthful_iff (h : RemoveOutcome env info st xs rtn st') :
    (StoreOp.removeProcess info).Truthful st rtn st' ↔ StoreCall.missesNothing st ⟨.removeProcess info, xs⟩ := by
  cases h with
  | queryFailed =>
    constructor
    · intro h _
      exact .inl (h rfl)
    · intro h _
      exact (h rfl).resolve_right (by simp)
  | absent habs => exact iff_of_true (fun _ => habs) nofun
  | removed hd hcoll => exact iff_of_true nofun nofun

theorem truthful_iff (hstep : storeStep env l st = some st') : l.Truthful env st ↔ l.missesNothing st := by
  obtain ⟨op, xs⟩ := l
  obtain ⟨⟨rtn, st₁⟩, hr, rfl⟩ := Option.map_eq_some_iff.mp hstep
  have hcall : StoreCall.Truthful env st ⟨op, xs⟩ ↔ op.Truthful st rtn st₁ := by
    refine ⟨fun h => h _ hr, fun h r hr' => ?_⟩
    obtain rfl := Option.some.inj (hr.symm.trans hr')
    exact h
  rw [hcall]
  cases op with
  | spawnProcess param => exact (spawn_outcome hr).truthful_iff
  | removeProcess info => exact (remove_outcome hr).truthful_iff

theorem no_second_record_step (hstep : storeStep env l st = some st') (h : l.missesNothing st) (k : Str) :
    (recs k st'.coll).length ≤ max 1 (recs k st.coll).length := by
  have htrue := (truthful_iff hstep).mpr h
  obtain ⟨op, xs⟩ := l
  obtain ⟨⟨rtn, st₁⟩, hr, rfl⟩ := Option.map_eq_some_iff.mp hstep
  replace htrue := htrue _ hr
  cases op with
  | spawnProcess param =>
    by_cases hnil : recs (cStr param.sid) st.coll = []
    · cases spawn_outcome hr with
      | inserted =>
        rw [recs_insert]
        split_ifs with hk
        · have hkey : cStr param.sid = k := hk
          rw [← hkey, hnil]
          exact le_max_left _ _
        · exact le_max_right _ _
      | _ => exact le_max_right _ _
    · have hst : st₁ = st := htrue hnil
      rw [hst]
      exact le_max_right _ _
  | removeProcess info =>
    cases remove_outcome hr with
    | @removed d hd coll hcoll write =>
      obtain rfl | rfl := hcoll
      · refine le_trans ?_ (le_max_right _ _)
        by_cases hk : k = cStr (env.shown "sid" d.sid)
        · subst hk
          simp
        · rw [recs_dropRec_ne hk]
      · exact le_max_right _ _
    | _ => exact le_max_right _ _

end

/-- **Every call of a sequence tells the truth, and no sid comes to a second record, if and only if no
query fails for a sid that has a record, other than in a spawn whose fork fails too.** -/
theorem failed_query_absent_iff {env : Env} {st st' : Store} {ls : List StoreCall} :
    (Runs (storeStep env) (StoreCall.Truthful env) st ls st' ∧ NoSecondRecord st.coll st'.coll) ↔
      Runs (storeStep env) StoreCall.missesNothing st ls st' := by
  constructor
  · rintro ⟨h, -⟩
    exact h.mono_of_step fun s l u hstep hl => (truthful_iff hstep).mp hl
  · intro h
    refine ⟨h.mono_of_step fun s l u hstep hl => (truthful_iff hstep).mpr hl, ?_⟩
    refine h.inv (fun t => NoSecondRecord st.coll t.coll) (fun k => le_max_right _ _) ?_
    intro t l u ht hl hstep k
    refine (no_second_record_step hstep hl k).trans (max_le (le_max_left _ _) (ht k))

/-! ### A query that fails for a recorded sid -/

def oneRecord : Store := ⟨[sampleDoc [1] 10], ⟨[⟨10, some (sampleInfo [1])⟩], [10]⟩⟩

def spawnAgain : StoreCall := ⟨.spawnProcess (sampleInfo [1]), [.dbFail, .pid 11, .ok]⟩

def removeMissed : StoreCall := ⟨.removeProcess (sampleInfo [1]), [.dbFail]⟩

def spawnAgainEnd : Store :=
  (check (storeStep sampleEnv) (fun _ _ => True) [spawnAgain] oneRecord).get (by decide)

theorem failed_query_taken_for_absence :
    (¬ ∀ env st ls st', UniqueSids st.coll → Runs (storeStep env) (fun _ _ => True) st ls st' →
      UniqueSids st'.coll) ∧
    ¬ ∀ env st info xs r, exec (answer env.shown) anyOutcome xs (removeProcess env info) st = some r →
      r.1 = ErrorCode.recErrorStreamNotExist.val → recs (cStr info.sid) st.coll = [] := by
  have hone : UniqueSids oneRecord.coll := fun k => List.length_filter_le _ _
  refine ⟨fun h => ?_, fun h => ?_⟩
  · have htwo := h sampleEnv oneRecord [spawnAgain] spawnAgainEnd hone (runs_get _) [1]
    revert htwo
    decide
  · have hnone := h sampleEnv oneRecord (sampleInfo [1]) removeMissed.choices
      (ErrorCode.recErrorStreamNotExist.val, oneRecord) rfl rfl
    revert hnone
    decide

end PullStream
