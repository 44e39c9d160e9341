import PullStream.Service.Draining
import PullStream.Control.Intact
/-!
# Records and what the functions returned

A record of a sid comes from a `spawn_process` that returns `ERROR_OK`, and goes with a `remove_process` that
returns `ERROR_OK`; the scheduler, the reloads and the functions for other sids neither make nor destroy one. So
whenever no worker is busy with the sid, its records can be told from what was returned so far, in whatever order
the workers have done it: there are no more than starts that succeeded, and no fewer than are left when every stop
that succeeded has taken one (`records_accounted`). Two stops that overlap may both succeed over one record.
A stop removes the record of the sid that has come back from the store, so the sids have to come back as they are.

A function that is not over yet is counted from the call on by which it inserts or removes (`Conf.total`).
-/

namespace PullStream

open Function Transition Family ServerBiz

/-! ### What is counted -/

/-- A start of the sid. -/
def Event.opens (k : Str) (ev : Event) : Bool := decide (ev.type = .createProcess ∧ ev.key = k)

/-- A stop of the sid. -/
def Event.closes (k : Str) (ev : Event) : Bool := decide (ev.type = .removeProcess ∧ ev.key = k)

/-- The events of a kind whose function has returned `ERROR_OK`. -/
def succeeded (kind : Event → Bool) (finished : List Done) : Nat :=
  finished.countP fun d => kind d.ev && decide (d.rtn = ErrorCode.errorOk.val)

/-- The function will return `ERROR_OK`, and if it is `spawn_process`, the record is there. -/
def Ctl.inserted : Ctl → Bool
  | .done rtn => decide (rtn = ErrorCode.errorOk.val)
  | _ => false

/-- `remove_process` is past the removal. -/
def Ctl.removed : Ctl → Bool
  | .done rtn => decide (rtn = ErrorCode.errorOk.val)
  | .removeKill _ => true
  | _ => false

/-- What a thread at `c` adds for the event `ev`. -/
def share (kind : Event → Bool) (past : Ctl → Bool) (ev : Event) (c : Ctl) : Nat :=
  if kind ev && past c then 1 else 0

namespace Conf

/-- What worker `i` adds. -/
def shareOf (kind : Event → Bool) (past : Ctl → Bool) (v : Conf) (i : Nat) : Nat :=
  match v.event i, v.thread (.worker i) with
  | some ev, some c => share kind past ev c
  | _, _ => 0

/-- The events of a kind that have succeeded or are going to. -/
def total (kind : Event → Bool) (past : Ctl → Bool) (v : Conf) : Nat :=
  succeeded kind v.finished + ∑ i ∈ Finset.range v.workers, v.shareOf kind past i

end Conf

section

variable {env : Env} {kind : Event → Bool} {past : Ctl → Bool} {v v' : Conf} {l : Label} {st st' : Store}
  {c c' : Ctl} {ch : Choice} {ev : Event} {coll : List Doc}

theorem length_recs_setPid (k j : Str) (p : Int) (coll : List Doc) :
    (recs k (setPid j p coll)).length = (recs k coll).length := by
  by_cases hk : k = j
  · subst hk
    rw [recs_setPid_self, List.length_modifyHead]
  · rw [recs_setPid_ne hk]

/-- **One call of a worker**: the records of a sid change by what the call adds to the two counts. -/
theorem CStep.account (hsid : env.KeepsSids) (h : CStep env st c ch c' st') (hs : c.Serves env ev) (k : Str) :
    (recs k st'.coll).length + share (Event.opens k) Ctl.inserted ev c ≤
        (recs k st.coll).length + share (Event.opens k) Ctl.inserted ev c' ∧
      (recs k st.coll).length + share (Event.opens k) Ctl.inserted ev c' + share (Event.closes k) Ctl.removed ev c ≤
        (recs k st'.coll).length + share (Event.opens k) Ctl.inserted ev c +
          share (Event.closes k) Ctl.removed ev c' := by
  cases h with
  | @insert p =>
    obtain ⟨hty, hkey⟩ := hs
    have hdoc : (processDoc env p).sid = ev.key := hkey
    by_cases hk : ev.key = k
    · simp [recs_insert, hdoc, hk, share, Event.opens, Event.closes, hty, Ctl.inserted]
    · simp [recs_insert, hdoc, hk, share, Event.opens, Event.closes]
  | @delete p =>
    have hty := hs.1
    have hkey : cStr p.sid = ev.key := hsid.key hs.2
    by_cases hk : ev.key = k
    · simp [hkey, hk, share, Event.opens, Event.closes, hty, Ctl.removed]
      omega
    · simp [recs_dropRec_ne (Ne.symm (hkey ▸ hk)), share, Event.opens, Event.closes, hk]
  | kill =>
    obtain ⟨hty, -⟩ := hs
    simp [share, Event.opens, hty, Ctl.removed]
  | reloadFound | reloadAbsent | reloadForkFailed | reloadForked =>
    obtain ⟨hty, -⟩ := hs
    simp [share, Event.opens, Event.closes, hty]
  | reloadUpdate =>
    obtain ⟨hty, -⟩ := hs
    simp [share, Event.opens, Event.closes, hty, length_recs_setPid]
  | spawnFound | spawnAbsent | spawnForkFailed | spawnForked | removeFound | removeAbsent =>
    simp [share, Ctl.inserted, Ctl.removed, ErrorCode.val]
  | _ => exact hs.elim

theorem CStep.length_recs (h : CStep env st c ch c' st') (hs : c.Scans) (k : Str) :
    (recs k st'.coll).length = (recs k st.coll).length := by
  cases h with
  | detectUpdate => exact length_recs_setPid k _ _ _
  | snapshot | probeAlive | probeDead | lookupFound | lookupAbsent | detectForkFailed | detectForked => rfl
  | _ => exact hs.elim

/-! ### What a step does to the counts -/

theorem Moves.finished_eq (hm : Moves env v l v') (hl : ∀ i, l ≠ .pop i) : v'.finished = v.finished := by
  cases hm with
  | pop => exact absurd rfl (hl _)
  | _ => rfl

theorem shareOf_of_thread {i : Nat} (hev : v.event i = some ev) (ht : v.thread (.worker i) = some c) :
    v.shareOf kind past i = share kind past ev c := by
  simp only [Conf.shareOf, hev, ht]

theorem shareOf_of_idle {i : Nat} (hev : v.event i = none) : v.shareOf kind past i = 0 := by
  simp only [Conf.shareOf, hev]

theorem Moves.shareOf_eq (hm : Moves env v l v') {j : Nat} (hj : l.worker? ≠ some j) :
    v'.shareOf kind past j = v.shareOf kind past j := by
  obtain ⟨hthread, hevent, -⟩ := hm.others hj
  rw [Conf.shareOf, hthread, hevent]
  rfl

theorem Moves.total_worker (kind : Event → Bool) (past : Ctl → Bool) (hm : Moves env v l v') {i : Nat}
    (hl : l.worker? = some i) (hi : i < v.workers) :
    v'.total kind past + succeeded kind v.finished + v.shareOf kind past i =
      v.total kind past + succeeded kind v'.finished + v'.shareOf kind past i := by
  have hsum := sum_add_of_update (A := Finset.range v.workers) (f := v.shareOf kind past)
    (g := v'.shareOf kind past) (Finset.mem_range.mpr hi)
    fun j hj => hm.shareOf_eq fun he => hj (Option.some.inj (he.symm.trans hl))
  simp only [Conf.total, hm.workers]
  omega

theorem Moves.total_other (hm : Moves env v l v') (hl : l.worker? = none) :
    v'.total kind past = v.total kind past := by
  have hfinished := hm.finished_eq fun i he => by
    subst he
    cases hl
  have hshare : ∀ j, v'.shareOf kind past j = v.shareOf kind past j := fun j => hm.shareOf_eq (by simp [hl])
  simp only [Conf.total, hm.workers, hfinished, hshare]

theorem succeeded_concat (kind : Event → Bool) (finished : List Done) (d : Done) :
    succeeded kind (finished ++ [d]) =
      succeeded kind finished + if kind d.ev && decide (d.rtn = ErrorCode.errorOk.val) then 1 else 0 := by
  simp only [succeeded, List.countP_append, List.countP_singleton]

theorem Moves.total_eq (hm : Moves env v l v') (hin : ∀ i, v.queue i ≠ [] → i < v.workers)
    (hstart : ∀ ev, past (Ctl.start ev) = false)
    (hdone : ∀ rtn, past (.done rtn) = decide (rtn = ErrorCode.errorOk.val))
    (hcall : ∀ i ch, l ≠ .call (.worker i) ch) :
    v'.total kind past = v.total kind past := by
  cases hl : l.worker? with
  | none => exact hm.total_other hl
  | some i =>
    have hworker := hm.total_worker kind past hl
    cases hm with
    | @front i' ev q hidle hq =>
      obtain rfl : i' = i := Option.some.inj hl
      have hstep := hworker (hin i' (hq ▸ List.cons_ne_nil ev q))
      rw [shareOf_of_idle hidle, shareOf_of_thread (update_self ..) (update_self ..), share, hstart] at hstep
      simpa using hstep
    | @pop i' ev₀ ev q rtn hev ht hq =>
      obtain rfl : i' = i := Option.some.inj hl
      have hstep := hworker (hin i' (hq ▸ List.cons_ne_nil ev₀ q))
      rw [shareOf_of_thread hev ht, shareOf_of_idle (update_self ..), succeeded_concat, share, hdone] at hstep
      dsimp only at hstep ⊢
      omega
    | @call τ ch c c' st' ht hc =>
      obtain ⟨i', rfl⟩ : ∃ i', τ = .worker i' := by
        cases τ with
        | worker i' => exact ⟨i', rfl⟩
        | sched => cases hl
      exact absurd rfl (hcall i' ch)
    | abort => rfl
    | put | die | appear | detect | detectEnd => cases hl

theorem total_of_idle (past : Ctl → Bool) (h : ∀ i ev, v.event i = some ev → kind ev = false) :
    v.total kind past = succeeded kind v.finished := by
  have hshare : ∀ i, v.shareOf kind past i = 0 := by
    intro i
    cases hev : v.event i with
    | none => exact shareOf_of_idle hev
    | some ev =>
      cases ht : v.thread (.worker i) with
      | none => simp [Conf.shareOf, hev, ht]
      | some c => simp [shareOf_of_thread hev ht, share, h i ev hev]
  simp [Conf.total, hshare]

/-! ### The accounts of a sid -/

/-- The records of the sid are no more than were there and have been inserted since, and no fewer than are left when
each removal has taken one. -/
structure Accounted (k : Str) (n : Nat) (v : Conf) : Prop where
  upper : (recs k v.store.coll).length ≤ n + v.total (Event.opens k) Ctl.inserted
  lower : n + v.total (Event.opens k) Ctl.inserted ≤
    (recs k v.store.coll).length + v.total (Event.closes k) Ctl.removed

theorem Ctl.inserted_start (ev : Event) : (Ctl.start ev).inserted = false := by
  unfold Ctl.start
  cases ev.type <;> rfl

theorem Ctl.removed_start (ev : Event) : (Ctl.start ev).removed = false := by
  unfold Ctl.start
  cases ev.type <;> rfl

theorem Accounted.move (hsid : env.KeepsSids) {k : Str} {n : Nat} (h : Accounted k n v) (hm : Moves env v l v')
    (hfits : v.Fits env)
    (hin : ∀ i, v.queue i ≠ [] → i < v.workers) (hdb : l.dbOk = true) : Accounted k n v' := by
  by_cases hcall : ∃ i ch, l = .call (.worker i) ch
  · obtain ⟨i, ch, rfl⟩ := hcall
    have hworker := fun kind past => hm.total_worker kind past rfl
    cases hm with
    | @call τ ch c c' st' ht hc =>
      obtain ⟨ev, hev, hserves⟩ := hfits.worker i c ht
      obtain ⟨q, hq⟩ := hfits.front i ev hev
      have hi := hin i (hq ▸ List.cons_ne_nil ev q)
      have hstep : ∀ (kind : Event → Bool) (past : Ctl → Bool),
          Conf.total kind past { v with thread := update v.thread (.worker i) (some c'), store := st' } +
            share kind past ev c = v.total kind past + share kind past ev c' := by
        intro kind past
        have htotal := hworker kind past hi
        rw [shareOf_of_thread hev ht,
          shareOf_of_thread (v := { v with thread := update v.thread (.worker i) (some c'), store := st' }) hev
            (update_self ..)] at htotal
        dsimp only at htotal
        omega
      obtain ⟨hadd, hdrop⟩ := (hfits.cstep ht hdb hc).account hsid hserves k
      have hopen := hstep (Event.opens k) Ctl.inserted
      have hclose := hstep (Event.closes k) Ctl.removed
      have hupper := h.upper
      have hlower := h.lower
      exact ⟨by dsimp only; omega, by dsimp only; omega⟩
  · have hne : ∀ i ch, l ≠ .call (.worker i) ch := fun i ch he => hcall ⟨i, ch, he⟩
    have hrecs : (recs k v'.store.coll).length = (recs k v.store.coll).length := by
      cases hm with
      | @call τ ch c c' st' ht hc =>
        cases τ with
        | worker i => exact absurd rfl (hne i ch)
        | sched => exact (hfits.cstep ht hdb hc).length_recs (hfits.sched c ht) k
      | _ => rfl
    have hopen : v'.total (Event.opens k) Ctl.inserted = v.total (Event.opens k) Ctl.inserted :=
      hm.total_eq hin Ctl.inserted_start (fun _ => rfl) hne
    have hclose : v'.total (Event.closes k) Ctl.removed = v.total (Event.closes k) Ctl.removed :=
      hm.total_eq hin Ctl.removed_start (fun _ => rfl) hne
    exact ⟨by rw [hrecs, hopen]; exact h.upper, by rw [hrecs, hopen, hclose]; exact h.lower⟩

end

theorem accounted_of_runs {env : Env} (hsid : env.KeepsSids) {W : Int} {coll : List Doc} {os : Os}
    {ok : Sys Ctl → Label → Prop} {ls : List Label} {u : Sys Ctl} (hok : ∀ t l, ok t l → l.dbOk = true)
    (h : Runs (step (points env)) ok (Sys.boot W coll os) ls u) (k : Str)
    (hidle : ∀ i ev, u.taken (.worker i) = some ev → ev.key ≠ k) :
    (recs k u.coll).length ≤ (recs k coll).length + succeeded (Event.opens k) u.finished ∧
      (recs k coll).length + succeeded (Event.opens k) u.finished ≤
        (recs k u.coll).length + succeeded (Event.closes k) u.finished := by
  have hboot (kind : Event → Bool) (past : Ctl → Bool) :
      (Sys.boot W coll os : Sys Ctl).conf.total kind past = 0 :=
    total_of_idle past (by simp [Sys.conf, job_boot])
  have hstart : Accounted k (recs k coll).length (Sys.boot W coll os : Sys Ctl).conf :=
    ⟨by rw [hboot]; exact Nat.le_refl _, by rw [hboot, hboot]; exact Nat.le_refl _⟩
  obtain ⟨-, hupper, hlower⟩ := h.inv (fun t => t.conf.Fits env ∧ Accounted k (recs k coll).length t.conf)
    ⟨fits_boot env W coll os, hstart⟩
    fun t l u ht hl hstep => ⟨ht.1.move (moves_of_step hstep),
      ht.2.move hsid (moves_of_step hstep) ht.1 (fun i => lt_workers_of_queue) (hok t l hl)⟩
  have hkey : ∀ i ev, u.conf.event i = some ev → ev.key ≠ k := by
    intro i ev hev
    refine hidle i ev ?_
    simpa [Sys.taken, Sys.conf] using hev
  rw [total_of_idle _ fun i ev hev => by simp [Event.opens, hkey i ev hev]] at hupper hlower
  rw [total_of_idle _ fun i ev hev => by simp [Event.closes, hkey i ev hev]] at hlower
  exact ⟨hupper, hlower⟩

/-- **Records and what the functions returned agree**: whenever no worker is busy with the sid, its records are no more
than those at the beginning and the starts that succeeded, and with one for each stop that succeeded no fewer, if
sids come back. -/
theorem records_accounted {env : Env} {W : Int} {coll : List Doc} {os : Os} {ls : List Label} {s : Sys (Act Int)}
    (hcoll : ∀ d ∈ coll, d.intact env ["sid"] = true)
    (h : Runs (step (service env)) (fun _ l => l.dbOk = true ∧ l.intact env ["sid"] = true) (Sys.boot W coll os) ls s)
    (k : Str) (hidle : ∀ i ev, s.taken (.worker i) = some ev → ev.key ≠ k) :
    (recs k s.coll).length ≤ (recs k coll).length + succeeded (Event.opens k) s.finished ∧
      (recs k coll).length + succeeded (Event.opens k) s.finished ≤
        (recs k s.coll).length + succeeded (Event.closes k) s.finished := by
  replace h := runs_keep hcoll (fun _ _ hok => hok.2) h
  have hsid := keep_sids env
  generalize env.keep ["sid"] = env' at h hsid
  rw [← Sys.map_boot (Ctl.code env')] at h
  obtain ⟨u, rfl, hrun⟩ := runs_points h
  exact accounted_of_runs hsid (fun _ _ hok => hok.1) hrun k fun i ev hev => hidle i ev ((Sys.map_taken ..).trans hev)

/-- A start and a stop of one stream, by two workers. -/
def startAndStop : Sys (Act Int) :=
  (check (step (service sampleEnv)) (fun _ l => l.dbOk = true ∧ l.intact sampleEnv ["sid"] = true)
    ([.put (startEvent [1]), .put (stopEvent [1])] ++ startLabels 0 10 ++ stopLabels 1)
    (Sys.boot 2 [] ⟨[], []⟩)).get (by decide)

theorem taken_startAndStop (i : Nat) : startAndStop.taken (.worker i) = none := by
  rcases i with _ | _ | i <;> rfl

theorem records_accounted_none :
    (recs [1] startAndStop.coll).length ≤
        (recs [1] []).length + succeeded (Event.opens [1]) startAndStop.finished ∧
      (recs [1] []).length + succeeded (Event.opens [1]) startAndStop.finished ≤
        (recs [1] startAndStop.coll).length + succeeded (Event.closes [1]) startAndStop.finished :=
  records_accounted (List.forall_mem_nil _) (runs_get _) [1] fun i ev h =>
    absurd (h.symm.trans (taken_startAndStop i)) (Option.some_ne_none ev)

end PullStream
