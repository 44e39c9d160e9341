import PullStream.Service.FailedQuery
import PullStream.Service.Arguments
/-!
# Streams whose sids differ

`start` compares and checks counted strings, the store knows a stream by the bytes before the first NUL of its
sid, and what comes back of these need not be the same bytes. So two streams are told apart by their records, and
each is found under the sid that was asked for, exactly if each of the sids comes back whole
(`distinct_sids_iff`).
-/

namespace PullStream

open ServerBiz ProcessCtl RestApi Prog

/-- What comes back of the sid, which is stored up to its first NUL, is the sid. -/
def Env.ReturnsSid (env : Env) (sid : Str) : Prop := env.shown "sid" (cStr sid) = sid

/-- `get_process_info` returns a record with this sid. -/
def Found (env : Env) (sid : Str) (st : Store) : Prop :=
  ∀ xs r, exec (answer env.shown) succeeds xs (getProcessInfo env sid) st = some r →
    ∃ info, r.1 = some info ∧ info.sid = sid

/-- The start of the event is rejected whenever it is processed in the state `st`. -/
def Rejected (env : Env) (ev : Event) (st : Store) : Prop :=
  ∀ xs rtn st', exec (answer env.shown) succeeds xs (dispatch env ev) st = some (rtn, st') →
    rtn = ErrorCode.errorStreamExist.val

/-- After a stop for the sid `sid` a record with the sid `other` is still found. -/
def Spared (env : Env) (sid other : Str) (st : Store) : Prop :=
  ∀ info xs rtn st', info.sid = sid →
    exec (answer env.shown) succeeds xs (removeProcess env info) st = some (rtn, st') →
    Found env other st'

/-- Two starts that were processed in the state `st`, the second of which returned `rtn`, have led to the state
`st'` and do not get into each other's way. -/
structure SidsApart (env : Env) (ev₁ ev₂ : Event) (st : Store) (rtn : Int) (st' : Store) : Prop where
  accepted : rtn = ErrorCode.errorStreamExist.val → Rejected env ev₂ st
  first : Found env ev₁.process.sid st'
  second : Found env ev₂.process.sid st'
  stopFirst : Spared env ev₁.process.sid ev₂.process.sid st'
  stopSecond : Spared env ev₂.process.sid ev₁.process.sid st'

section

variable {env : Env} {sid other : Str} {st st₁ st₂ : Store} {xs xs₁ xs₂ : List Choice} {rtn rtn₁ rtn₂ : Int}
  {param info : ProcessInfo} {ev₁ ev₂ : Event}

theorem getProcessInfo_eq (env : Env) (sid : Str) : getProcessInfo env sid =
    .call (.findOne (.sid (cStr sid))) fun found => .ret (found.map fun item => (parser item env.newInfo).2) := by
  refine congrArg (Prog.call _) (funext fun found => ?_)
  cases found <;> rfl

theorem exec_getProcessInfo {r : Option ProcessInfo × Store} :
    exec (answer env.shown) succeeds xs (getProcessInfo env sid) st = some r ↔
      xs = [.ok] ∧ r = ((recs (cStr sid) st.coll).head?.map (Doc.seen env.shown), st) := by
  have hfound : ((st.coll.find? (Query.sid (cStr sid)).matches).map (Doc.text env.shown)).map
      (fun item => (parser item env.newInfo).2) = (recs (cStr sid) st.coll).head?.map (Doc.seen env.shown) := by
    rw [find?_sid, Option.map_map]
    rfl
  rw [getProcessInfo_eq, exec_call]
  constructor
  · rintro ⟨ch, xs', y, rfl, hok, hy, h⟩
    obtain ⟨rfl, hr⟩ := exec_ret.mp h
    cases ch <;> cases hy
    · exact ⟨rfl, hr.trans (congrArg (fun info => (info, st)) hfound)⟩
    · exact absurd rfl (of_decide_eq_true hok).1
  · rintro ⟨rfl, rfl⟩
    exact ⟨.ok, [], _, rfl, rfl, rfl, exec_ret.mpr ⟨rfl, congrArg (fun info => (info, st)) hfound.symm⟩⟩

theorem found_iff : Found env sid st ↔ recs (cStr sid) st.coll ≠ [] ∧ env.ReturnsSid sid := by
  constructor
  · intro h
    obtain ⟨info, hinfo, hsid⟩ := h _ _ (exec_getProcessInfo.mpr ⟨rfl, rfl⟩)
    obtain ⟨d, hd, rfl⟩ := Option.map_eq_some_iff.mp hinfo
    refine ⟨List.ne_nil_of_mem (List.mem_of_mem_head? hd), ?_⟩
    rw [Env.ReturnsSid, ← (recs_head hd).2]
    exact hsid
  · rintro ⟨hne, hsid⟩ xs r h
    obtain ⟨-, rfl⟩ := exec_getProcessInfo.mp h
    obtain ⟨d, l, hl⟩ := List.exists_cons_of_ne_nil hne
    have hd : (recs (cStr sid) st.coll).head? = some d := by rw [hl, List.head?_cons]
    refine ⟨d.seen env.shown, congrArg (Option.map _) hd, ?_⟩
    show env.shown "sid" d.sid = sid
    rw [(recs_head hd).2]
    exact hsid

theorem spawn_succeeds (h : exec (answer env.shown) succeeds xs (spawnProcess env param) st = some (rtn, st₁)) :
    (rtn = ErrorCode.errorStreamExist.val ↔ recs (cStr param.sid) st.coll ≠ []) ∧
      recs (cStr param.sid) st₁.coll ≠ [] ∧
      ∀ k, k ≠ cStr param.sid → recs k st₁.coll = recs k st.coll := by
  have hall : ∀ ch ∈ xs, ch ≠ .dbFail ∧ ch ≠ .forkFail := forall_of_exec (fun _ _ _ => of_decide_eq_true) h
  cases spawn_outcome (exec_mono (fun _ _ _ _ => rfl) h) with
  | found hd =>
    have hne := List.ne_nil_of_mem (List.mem_of_mem_head? hd)
    exact ⟨iff_of_true rfl hne, hne, fun _ _ => rfl⟩
  | forkFailed => exact absurd rfl (hall .forkFail (by simp)).2
  | @inserted query x habs =>
    have hnil := habs (hall query (by simp)).1
    have hsid : (processDoc env { param with pid := x }).sid = cStr param.sid := rfl
    refine ⟨iff_of_false nofun fun hne => hne hnil, ?_, fun k hk => ?_⟩
    · rw [recs_insert, if_pos hsid]
      exact List.append_ne_nil_of_right_ne_nil _ (List.cons_ne_nil _ _)
    · rw [recs_insert, if_neg fun heq => hk heq.symm]
  | insertFailed => exact absurd rfl (hall .dbFail (by simp)).1

theorem remove_succeeds (hsid : env.ReturnsSid info.sid)
    (h : exec (answer env.shown) succeeds xs (removeProcess env info) st = some (rtn, st₁)) {k : Str}
    (hk : k ≠ cStr info.sid) : recs k st₁.coll = recs k st.coll := by
  cases remove_outcome (exec_mono (fun _ _ _ _ => rfl) h) with
  | @removed d hd coll hcoll =>
    obtain rfl | rfl := hcoll
    · have hkey : cStr (env.shown "sid" d.sid) = cStr info.sid := by
        rw [(recs_head hd).2, show env.shown "sid" (cStr info.sid) = info.sid from hsid]
      rw [hkey, recs_dropRec_ne hk]
    · rfl
  | _ => rfl

/-- **Streams are told apart by their sids exactly if the sids come back whole.** -/
theorem distinct_sids_iff {rest : Rest} {body₁ body₂ : Option Str}
    (h₁ : accepted rest (startFields rest) body₁ = some ev₁) (h₂ : accepted rest (startFields rest) body₂ = some ev₂)
    (hne : ev₁.process.sid ≠ ev₂.process.sid)
    (hfirst : exec (answer env.shown) succeeds xs₁ (dispatch env ev₁) st = some (rtn₁, st₁))
    (hsecond : exec (answer env.shown) succeeds xs₂ (dispatch env ev₂) st₁ = some (rtn₂, st₂)) :
    SidsApart env ev₁ ev₂ st rtn₂ st₂ ↔ env.ReturnsSid ev₁.process.sid ∧ env.ReturnsSid ev₂.process.sid := by
  obtain ⟨root₁, hroot₁⟩ := accepted_some h₁
  obtain ⟨root₂, hroot₂⟩ := accepted_some h₂
  rw [dispatch, type_of_startFields hroot₁] at hfirst
  rw [dispatch, type_of_startFields hroot₂] at hsecond
  constructor
  · intro h
    exact ⟨(found_iff.mp h.first).2, (found_iff.mp h.second).2⟩
  · rintro ⟨hsid₁, hsid₂⟩
    have hkeys : cStr ev₁.process.sid ≠ cStr ev₂.process.sid := by
      intro heq
      exact hne (hsid₁.symm.trans (heq ▸ hsid₂))
    obtain ⟨-, hrecs₁, hframe₁⟩ := spawn_succeeds hfirst
    obtain ⟨hrtn₂, hrecs₂, hframe₂⟩ := spawn_succeeds hsecond
    rw [← hframe₂ _ hkeys] at hrecs₁
    refine ⟨fun hrej xs rtn st' h => ?_, found_iff.mpr ⟨hrecs₁, hsid₁⟩, found_iff.mpr ⟨hrecs₂, hsid₂⟩, ?_, ?_⟩
    · rw [dispatch, type_of_startFields hroot₂] at h
      have hexist := hrtn₂.mp hrej
      rw [hframe₁ _ hkeys.symm] at hexist
      exact (spawn_succeeds h).1.mpr hexist
    · rintro info xs rtn st' hinfo h
      refine found_iff.mpr ⟨?_, hsid₂⟩
      rwa [remove_succeeds (hinfo ▸ hsid₁) h (hinfo ▸ hkeys.symm)]
    · rintro info xs rtn st' hinfo h
      refine found_iff.mpr ⟨?_, hsid₁⟩
      rwa [remove_succeeds (hinfo ▸ hsid₂) h (hinfo ▸ hkeys)]

end

/-! ### Sids that differ, and sids that differ after a NUL -/

/-- A reader of two starts. -/
def pairRest (sid₁ sid₂ : Str) : Rest where
  env := sampleEnv
  parse body := .ok <| some fun name => .ok <| match name with
    | "src" => .ofStr (lit "a")
    | "dest" => .ofStr (lit "b")
    | "sid" => .ofStr (if body = lit "1" then sid₁ else sid₂)
    | _ => .null
  host := lit "127.0.0.1"

def pairEvent (sid : Str) : Event :=
  ⟨{ sampleInfo sid with srcUrl := lit "a", destUrl := lit "b", status := lit "active", host := lit "127.0.0.1" },
    .createProcess⟩

/-- The state after the start of a stream with the process `p`. -/
def startedWith (sid : Str) (p : Int) (st : Store) : Store :=
  ⟨st.coll ++ [processDoc sampleEnv { (pairEvent sid).process with pid := p }],
    st.os.add ⟨p, some (pairEvent sid).process⟩⟩

theorem distinct_sids_iff_two :
    SidsApart sampleEnv (pairEvent [1]) (pairEvent [2]) noRecord ErrorCode.errorOk.val
        (startedWith [2] 11 (startedWith [1] 10 noRecord)) ↔
      sampleEnv.ReturnsSid (pairEvent [1]).process.sid ∧ sampleEnv.ReturnsSid (pairEvent [2]).process.sid :=
  @distinct_sids_iff sampleEnv noRecord (startedWith [1] 10 noRecord) _ [.ok, .pid 10, .ok] [.ok, .pid 11, .ok]
    ErrorCode.errorOk.val _ _ _ (pairRest [1] [2]) (some (lit "1")) (some (lit "2"))
    (by decide) (by decide) (by decide) rfl rfl

/-- The sids `a`, NUL, `b` and `a`, NUL, `c` differ, and the second start is rejected. -/
theorem sids_collide :
    ¬ ∀ (env : Env) (rest : Rest) (body₁ body₂ : Option Str) (ev₁ ev₂ : Event) (xs₁ xs₂ : List Choice)
      (rtn₁ rtn₂ : Int) (st st₁ st₂ : Store), accepted rest (startFields rest) body₁ = some ev₁ →
      accepted rest (startFields rest) body₂ = some ev₂ → ev₁.process.sid ≠ ev₂.process.sid →
      exec (answer env.shown) succeeds xs₁ (dispatch env ev₁) st = some (rtn₁, st₁) →
      exec (answer env.shown) succeeds xs₂ (dispatch env ev₂) st₁ = some (rtn₂, st₂) →
        SidsApart env ev₁ ev₂ st rtn₂ st₂ := by
  intro h
  have hapart := h sampleEnv (pairRest [97, 0, 98] [97, 0, 99]) (some (lit "1")) (some (lit "2"))
    (pairEvent [97, 0, 98]) (pairEvent [97, 0, 99]) [.ok, .pid 10, .ok] [.ok] ErrorCode.errorOk.val
    ErrorCode.errorStreamExist.val noRecord (startedWith [97, 0, 98] 10 noRecord) _ (by decide) (by decide)
    (by decide) rfl rfl
  have halone := hapart.accepted rfl [.ok, .pid 11, .ok] ErrorCode.errorOk.val
    (startedWith [97, 0, 99] 11 noRecord) rfl
  cases halone

end PullStream
