import PullStream.Control.Intact
import PullStream.Base.Run
/-!
# Reloads executed one at a time

`process_reload` goes from its query to `spawn_process_i` without asking whether the recorded process is
alive, and nobody ends that process: what is written over its pid is lost. And if the sid comes back from the
store as another one, the pid is written into the record of that one, or nowhere. A process that is recorded
nowhere stays so (`Store.Lost.step`), so after a sequence of reloads the live processes are exactly those
recorded if and only if every reload of a recorded stream found its process dead and its sid as it was
(`reload_replaces_iff`).
-/

namespace PullStream

open ServerBiz ProcessCtl Prog Transition

/-- The pids of the live processes that the service forked. -/
def Os.forked (os : Os) : List Int := (os.procs.filter (·.owner.isSome)).map (·.pid)

/-- The live processes that the service forked are those recorded, each recorded once. -/
def Store.Matched (st : Store) : Prop := st.os.forked.Perm (st.coll.map (·.pid))

/-- The store after the recorded process of the stream has ended. -/
def Store.crash (sid : Str) (st : Store) : Store :=
  match (recs (cStr sid) st.coll).head? with
  | some d => ⟨st.coll, st.os.drop d.pid⟩
  | none => st

/-- A call of `process_reload`: whether the process of the stream has ended by then, and what the calls of
the function come to. -/
structure Reload where
  sid : Str
  crashed : Bool
  choices : List Choice

def reloadStep (env : Env) (l : Reload) (st : Store) : Option Store :=
  (exec (answer env.shown) succeedsFresh l.choices (processReload env l.sid)
    (if l.crashed then st.crash l.sid else st)).map (·.2)

/-- The reload of a recorded stream finds its process dead, and its sid comes back as it is. -/
def Reload.Replaces (env : Env) (sids : List Str) (l : Reload) : Prop :=
  cStr l.sid ∈ sids → l.crashed = true ∧ env.KeepsSid (cStr l.sid)

/-- A live process that the service forked is recorded nowhere. -/
def Store.Lost (st : Store) (p : Int) : Prop := p ∈ st.os.forked ∧ p ∉ st.coll.map (·.pid)

section

variable {env : Env} {st st' : Store} {xs : List Choice} {r : Int × Store} {sid : Str} {p : Int} {os : Os}
  {d : Doc} {l : Reload}

theorem forked_drop : (os.drop p).forked = os.forked.filter fun q => q ≠ p := by
  rw [Os.forked, Os.forked, List.filter_map, List.filter_filter, Os.drop, List.filter_filter]
  refine congrArg (List.map _) (List.filter_congr fun a _ => ?_)
  exact Bool.and_comm _ _

theorem forked_add {info : ProcessInfo} : (os.add ⟨p, some info⟩).forked = os.forked ++ [p] := by
  simp [Os.forked, Os.add]

theorem mem_forked : p ∈ os.forked ↔ ∃ a ∈ os.procs, a.owner.isSome = true ∧ a.pid = p := by
  simp [Os.forked, and_assoc]

theorem alive_of_forked (h : p ∈ os.forked) : os.alive p = true := by
  obtain ⟨a, ha, -, hp⟩ := mem_forked.mp h
  exact alive_iff.mpr ⟨a, ha, hp⟩

theorem recs_eq_nil {k : Str} {coll : List Doc} : recs k coll = [] ↔ k ∉ coll.map (·.sid) := by
  rw [recs, Keyed.slot, List.filter_eq_nil_iff]
  simp

/-- A reload of a recorded stream forks `x`, and writes it into the record of the sid that has come back. -/
def Respawned (env : Env) (d : Doc) (st st' : Store) : Prop :=
  ∃ x, st.os.alive x = false ∧ x ∉ st.coll.map (·.pid) ∧
    st' = ⟨setPid (cStr (env.shown "sid" d.sid)) x st.coll, st.os.add ⟨x, some (d.seen env.shown)⟩⟩

theorem exec_reload (h : exec (answer env.shown) succeedsFresh xs (processReload env sid) st = some r) :
    (recs (cStr sid) st.coll = [] ∧ r.2 = st) ∨
      ∃ d, (recs (cStr sid) st.coll).head? = some d ∧ Respawned env d st r.2 := by
  replace h : exec (answer env.shown) succeedsFresh xs ((Ctl.reloadQuery sid).code env) st = some r := h
  obtain ⟨op, ch, xs, c, st₁, rfl, -, hok, hacts, h⟩ := exec_step h nofun
  have hquery := hacts.cstep trivial (by rintro rfl; cases hok)
  cases hquery with
  | reloadAbsent habs =>
    obtain ⟨-, rfl⟩ := exec_done h
    exact .inl ⟨habs, rfl⟩
  | @reloadFound _ d hd =>
    obtain ⟨op, ch, xs, c, st₁, rfl, -, hok, hacts, h⟩ := exec_step h nofun
    have hfork := hacts.cstep trivial (by rintro rfl; cases hok)
    cases hfork with
    | reloadForkFailed => cases hok
    | @reloadForked _ x hx hfree =>
      have hnew : x ∉ st.coll.map (·.pid) := of_decide_eq_true hok
      obtain ⟨op, ch, xs, c, st₁, rfl, -, hok, hacts, h⟩ := exec_step h nofun
      have hupdate := hacts.cstep trivial (by rintro rfl; cases hok)
      cases hupdate with
      | reloadUpdate =>
        obtain ⟨-, rfl⟩ := exec_done h
        exact .inr ⟨d, hd, x, hfree, hnew, rfl⟩

/-- **One reload** of a stream that has no record changes nothing. For one that has, its process may have ended. -/
theorem reload_cases (h : reloadStep env l st = some st') :
    (cStr l.sid ∉ st.coll.map (·.sid) ∧ st' = st) ∨
      ∃ d ∈ st.coll, d.sid = cStr l.sid ∧
        Respawned env d ⟨st.coll, if l.crashed then st.os.drop d.pid else st.os⟩ st' := by
  obtain ⟨coll, os⟩ := st
  obtain ⟨sid, crashed, choices⟩ := l
  obtain ⟨r, hr, rfl⟩ := Option.map_eq_some_iff.mp h
  have hsame : (if crashed = true then (Store.mk coll os).crash sid else ⟨coll, os⟩) =
      match (recs (cStr sid) coll).head? with
      | some d => ⟨coll, if crashed then os.drop d.pid else os⟩
      | none => ⟨coll, os⟩ := by
    unfold Store.crash
    cases crashed <;> cases (recs (cStr sid) coll).head? <;> rfl
  dsimp only at hr
  rw [hsame] at hr
  cases hhead : (recs (cStr sid) coll).head? with
  | none =>
    rw [hhead] at hr
    obtain ⟨habs, hst⟩ | ⟨d, hd, -⟩ := exec_reload hr
    · exact .inl ⟨recs_eq_nil.mp habs, hst⟩
    · cases hhead.symm.trans hd
  | some d =>
    rw [hhead] at hr
    obtain ⟨habs, -⟩ | ⟨e, he, hrespawn⟩ := exec_reload hr
    · rw [show recs (cStr sid) coll = [] from habs] at hhead
      cases hhead
    · obtain rfl : d = e := Option.some.inj (hhead.symm.trans he)
      exact .inr ⟨d, (recs_head hhead).1, (recs_head hhead).2, hrespawn⟩

/-- **What is lost stays lost**: no record has its pid, and no fork returns it. -/
theorem Store.Lost.step (h : st.Lost p) (hstep : reloadStep env l st = some st') : st'.Lost p := by
  obtain ⟨hforked, hnone⟩ := h
  obtain ⟨-, rfl⟩ | ⟨d, hd, -, x, hfree, -, rfl⟩ := reload_cases hstep
  · exact ⟨hforked, hnone⟩
  · have hkept : p ∈ (if l.crashed then st.os.drop d.pid else st.os).forked := by
      split_ifs
      · rw [forked_drop, List.mem_filter]
        exact ⟨hforked, decide_eq_true fun hp => hnone (hp ▸ List.mem_map_of_mem hd)⟩
      · exact hforked
    refine ⟨?_, fun hmem => ?_⟩
    · rw [forked_add]
      exact List.mem_append_left _ hkept
    · obtain ⟨e, he, rfl⟩ := List.mem_map.mp hmem
      rcases Keyed.mem_modifyFirst he with he | ⟨e, -, rfl⟩
      · exact hnone (List.mem_map_of_mem he)
      · cases (alive_of_forked hkept).symm.trans hfree

/-- The records keep their sids, and no two processes have one pid. -/
structure Tidy (sids : List Str) (st : Store) : Prop where
  sids : st.coll.map (·.sid) = sids
  procs : (st.os.procs.map (·.pid)).Nodup

namespace Tidy

variable {sids : List Str}

theorem nodup_forked (h : Tidy sids st) : st.os.forked.Nodup :=
  h.procs.sublist (List.Sublist.map _ List.filter_sublist)

theorem step (h : Tidy sids st) (hstep : reloadStep env l st = some st') : Tidy sids st' := by
  obtain ⟨-, rfl⟩ | ⟨d, -, -, x, hfree, -, rfl⟩ := reload_cases hstep
  · exact h
  · refine ⟨sids_setPid.trans h.sids, ?_⟩
    have hold : ((if l.crashed then st.os.drop d.pid else st.os).procs.map (·.pid)).Nodup := by
      split_ifs
      · exact h.procs.sublist (List.Sublist.map _ List.filter_sublist)
      · exact h.procs
    rw [Os.add, List.map_append, List.nodup_append]
    refine ⟨hold, List.nodup_singleton _, fun q hq y hy hqy => ?_⟩
    obtain rfl : y = x := by simpa using hy
    obtain ⟨a, ha, haq⟩ := List.mem_map.mp hq
    cases (alive_iff.mpr ⟨a, ha, haq.trans hqy⟩).symm.trans hfree

theorem matched (h : Tidy sids st) (hsids : sids.Nodup) (hmatched : st.Matched) (hl : l.Replaces env sids)
    (hstep : reloadStep env l st = some st') : st'.Matched := by
  obtain ⟨-, rfl⟩ | ⟨d, hd, hsid, x, -, -, rfl⟩ := reload_cases hstep
  · exact hmatched
  · have hrecorded : cStr l.sid ∈ sids := by
      rw [← h.sids, ← hsid]
      exact List.mem_map_of_mem hd
    obtain ⟨hcrashed, hkeeps⟩ := hl hrecorded
    have hkey : cStr (env.shown "sid" d.sid) = d.sid := by
      rw [hsid]
      exact hkeeps
    obtain ⟨l₁, l₂, hcoll⟩ := List.append_of_mem hd
    rw [Store.Matched, hcoll] at hmatched
    have hset : setPid d.sid x st.coll = l₁ ++ { d with pid := x } :: l₂ := by
      rw [hcoll]
      exact setPid_append (hcoll ▸ h.sids.symm ▸ hsids)
    have hold : st.os.forked.Perm (d.pid :: (l₁ ++ l₂).map (·.pid)) := by
      refine hmatched.trans ?_
      simp only [List.map_append, List.map_cons]
      exact List.perm_middle
    have hfresh : d.pid ∉ (l₁ ++ l₂).map (·.pid) := (List.nodup_cons.mp (hold.nodup_iff.mp h.nodup_forked)).1
    have hdrop : (st.os.drop d.pid).forked.Perm ((l₁ ++ l₂).map (·.pid)) := by
      rw [forked_drop]
      refine (hold.filter _).trans ?_
      rw [List.filter_cons_of_neg (by simp), List.filter_eq_self.mpr]
      exact fun q hq => decide_eq_true fun heq => hfresh (heq ▸ hq)
    simp only [Store.Matched, hkey, hcrashed, if_true]
    rw [forked_add, hset]
    refine (hdrop.append_right [x]).trans ((List.perm_append_singleton _ _).trans ?_)
    simp only [List.map_append, List.map_cons]
    exact List.perm_middle.symm

/-- **Any other reload of a recorded stream loses a process**: the one that the record written to has named, or the
new one. -/
theorem lost (h : Tidy sids st) (hsids : sids.Nodup) (hmatched : st.Matched) (hl : ¬ l.Replaces env sids)
    (hstep : reloadStep env l st = some st') : ∃ p, st'.Lost p := by
  obtain ⟨hrecorded, hnot⟩ := Classical.not_imp.mp hl
  obtain ⟨habs, -⟩ | ⟨d, hd, hsid, x, hfree, hnew, rfl⟩ := reload_cases hstep
  · exact absurd (h.sids.symm ▸ hrecorded) habs
  have hpids : (st.coll.map (·.pid)).Nodup := hmatched.nodup_iff.mp h.nodup_forked
  by_cases hkey : cStr (env.shown "sid" d.sid) ∈ st.coll.map (·.sid)
  · obtain ⟨e, he, hkey⟩ := List.mem_map.mp hkey
    have halive : e.pid ∈ st.os.forked := hmatched.mem_iff.mpr (List.mem_map_of_mem he)
    have hkept : e.pid ∈ (if l.crashed then st.os.drop d.pid else st.os).forked := by
      split_ifs with hcrashed
      · rw [forked_drop, List.mem_filter]
        refine ⟨halive, decide_eq_true fun hp => hnot ⟨hcrashed, ?_⟩⟩
        -- the record written to would be that of the stream
        obtain rfl : e = d := List.inj_on_of_nodup_map hpids he hd hp
        rw [← hsid]
        exact hkey.symm
      · exact halive
    obtain ⟨l₁, l₂, hcoll⟩ := List.append_of_mem he
    have hset : setPid e.sid x st.coll = l₁ ++ { e with pid := x } :: l₂ := by
      rw [hcoll]
      exact setPid_append (hcoll ▸ h.sids.symm ▸ hsids)
    refine ⟨e.pid, ?_, ?_⟩
    · rw [forked_add]
      exact List.mem_append_left _ hkept
    · rw [hcoll, List.map_append, List.map_cons] at hpids
      have hne : e.pid ≠ x := fun hx => hnew (hx ▸ List.mem_map_of_mem he)
      obtain ⟨hl₁, hl₂⟩ := not_or.mp fun hmem => (List.nodup_middle.mp hpids).notMem (List.mem_append.mpr hmem)
      simp only [← hkey, hset, List.map_append, List.map_cons, List.mem_append, List.mem_cons, not_or]
      exact ⟨hl₁, hne, hl₂⟩
  · refine ⟨x, ?_, ?_⟩
    · rw [forked_add]
      exact List.mem_append_right _ (List.mem_singleton_self x)
    · have hset : setPid (cStr (env.shown "sid" d.sid)) x st.coll = st.coll :=
        Keyed.modifyFirst_eq_self fun e he => decide_eq_false fun hsid => hkey (hsid ▸ List.mem_map_of_mem he)
      rw [hset]
      exact hnew

end Tidy

end

/-- **After reloads executed one at a time the live processes are exactly those recorded if and only if
every reload of a recorded stream found its process dead, and the sid came back as it was.** -/
theorem reload_replaces_iff {env : Env} {st st' : Store} {ls : List Reload} (hmatched : st.Matched)
    (hsids : (st.coll.map (·.sid)).Nodup) (hprocs : (st.os.procs.map (·.pid)).Nodup)
    (h : Runs (reloadStep env) (fun _ _ => True) st ls st') :
    st'.Matched ↔ ∀ l ∈ ls, cStr l.sid ∈ st.coll.map (·.sid) → l.crashed = true ∧ env.KeepsSid (cStr l.sid) := by
  have hend : Tidy (st.coll.map (·.sid)) st' ∧
      ((∀ l ∈ ls, l.Replaces env (st.coll.map (·.sid))) ∧ st'.Matched ∨
        (∃ l ∈ ls, ¬ l.Replaces env (st.coll.map (·.sid))) ∧ ∃ p, st'.Lost p) := by
    refine h.invTrace (fun ls t => Tidy (st.coll.map (·.sid)) t ∧
      ((∀ l ∈ ls, l.Replaces env (st.coll.map (·.sid))) ∧ t.Matched ∨
        (∃ l ∈ ls, ¬ l.Replaces env (st.coll.map (·.sid))) ∧ ∃ p, t.Lost p)) ?_ ?_
    · exact ⟨⟨rfl, hprocs⟩, .inl ⟨List.forall_mem_nil _, hmatched⟩⟩
    · intro ls t l u ⟨htidy, hphase⟩ _ hstep
      refine ⟨htidy.step hstep, ?_⟩
      rcases hphase with ⟨hall, ht⟩ | ⟨⟨l', hl', hbad⟩, p, hp⟩
      · by_cases hl : l.Replaces env (st.coll.map (·.sid))
        · exact .inl ⟨List.forall_mem_append.mpr ⟨hall, List.forall_mem_singleton.mpr hl⟩,
            htidy.matched hsids ht hl hstep⟩
        · exact .inr ⟨⟨l, List.mem_append_right _ (List.mem_singleton_self l), hl⟩, htidy.lost hsids ht hl hstep⟩
      · exact .inr ⟨⟨l', List.mem_append_left _ hl', hbad⟩, p, hp.step hstep⟩
  rcases hend.2 with ⟨hall, ht⟩ | ⟨⟨l, hl, hbad⟩, p, hforked, hnone⟩
  · exact iff_of_true ht hall
  · exact iff_of_false (fun ht => hnone (ht.mem_iff.mp hforked)) fun hall => hbad (hall l hl)

/-! ### A stream reloaded alive -/

def oneLive : Store := ⟨[sampleDoc [1] 10], ⟨[⟨10, some (sampleInfo [1])⟩], [10]⟩⟩

/-- The reload of the stream finds its process alive, or it has crashed. -/
def reloadOne (crashed : Bool) : Reload := ⟨[1], crashed, [.ok, .pid 11, .ok]⟩

def reloadOneEnd (crashed : Bool) : Store :=
  (check (reloadStep sampleEnv) (fun _ _ => True) [reloadOne crashed] oneLive).get (by decide +revert)

theorem reload_replaces_iff_crashed :
    (reloadOneEnd true).Matched ↔
      ∀ l ∈ [reloadOne true], cStr l.sid ∈ oneLive.coll.map (·.sid) →
        l.crashed = true ∧ sampleEnv.KeepsSid (cStr l.sid) :=
  reload_replaces_iff (.refl _) (by decide) (by decide) (runs_get _)

theorem reload_duplicates :
    ¬ ∀ (env : Env) (st st' : Store) (ls : List Reload), st.Matched → (st.coll.map (·.sid)).Nodup →
      (st.os.procs.map (·.pid)).Nodup → Runs (reloadStep env) (fun _ _ => True) st ls st' → st'.Matched := by
  intro h
  have hmatched := h sampleEnv oneLive (reloadOneEnd false) [reloadOne false] (.refl _) (by decide) (by decide)
    (runs_get _)
  exact absurd hmatched.length_eq (by decide)

end PullStream
