import PullStream.Service.Respawn
/-!
# Stopping a stream while the scheduler respawns it

`remove_process` and `process_alive_detect` both read the record of a sid, act on the process table and
write the record, in separate steps. If the record goes away between the scheduler's fork and its update,
the new process is recorded nowhere; if the scheduler's update falls between the look and the removal of
`remove_process`, the old pid is killed instead of the new one (`stopped_stream_restarts`).

When neither happens (`Sys.stopApart`), a stop that has returned `ERROR_OK` is final
(`stopped_stream_stays_stopped`): the run goes through two phases, `Standing`, in which the sid has its
one record, and `Removed`, in which it has none and at most the process that is being killed is alive.
-/

namespace PullStream

open Function Transition Family

/-! ### The condition -/

/-- `remove_process` does not remove the record while the scheduler respawns the sid, and the scheduler
does not update the record while some worker is about to remove it. -/
def Sys.stopApart {T : Type} (I : Threads T) (k : Str) (s : Sys T) : Label → Bool
  | .call (.worker i) _ =>
    decide (s.next I (.worker i) = some (.remove (.sid k)) → (s.next I .sched).any (Call.respawns k) = false)
  | .call .sched _ =>
    match s.next I .sched with
    | some (.update (.sid j) _) =>
      decide (j = k → ∀ i < s.workerList.length, s.next I (.worker i) ≠ some (.remove (.sid k)))
    | _ => true
  | _ => true

/-- No start and no reload of the sid is put. -/
def Label.noRestart (k : Str) : Label → Bool
  | .put ev => decide (ev.key = k → ev.type ≠ .createProcess ∧ ev.type ≠ .reloadProcess)
  | _ => true

/-- No event of the sid is queued or being executed, the scheduler is not respawning it, it has at most
one record, and no process was forked for it but the recorded one. -/
structure Sys.Quiet {T : Type} (I : Threads T) (k : Str) (s : Sys T) : Prop where
  queues : ∀ i, ∀ ev ∈ s.queue i, ev.key ≠ k
  sched : (s.next I .sched).any (Call.respawns k) = false
  unique : (recs k s.coll).length ≤ 1
  recorded : ∀ p ∈ s.os.live k, ∃ d ∈ recs k s.coll, d.pid = p

/-- A stop of the sid that returned `ERROR_OK`. -/
def Done.stopped (k : Str) (d : Done) : Bool :=
  d.ev.type = .removeProcess && d.ev.key = k && d.rtn = ErrorCode.errorOk.val

/-! ### How a worker gets on with a stop -/

section

variable {env : Env} {st st' : Store} {c c' : Ctl} {ch : Choice} {k : Str}

theorem CStep.to_delete {p : ProcessInfo} (h : CStep env st c ch c' st') (hc' : c' = .removeDelete p) :
    ∃ q d, c = .removeQuery q ∧ (recs (cStr q.sid) st.coll).head? = some d ∧ p = d.seen env.shown := by
  cases h with
  | removeFound hd =>
    cases hc'
    exact ⟨_, _, rfl, hd, rfl⟩
  | snapshot => cases hcoll : st.coll <;> rw [hcoll] at hc' <;> cases hc'
  | @probeAlive r rest | @lookupAbsent r rest | @detectForkFailed r rest | @detectUpdate r rest =>
    cases rest <;> cases hc'
  | _ => cases hc'

theorem CStep.to_kill {p : ProcessInfo} (h : CStep env st c ch c' st') (hc' : c' = .removeKill p) :
    c = .removeDelete p := by
  cases h with
  | delete =>
    cases hc'
    rfl
  | snapshot => cases hcoll : st.coll <;> rw [hcoll] at hc' <;> cases hc'
  | @probeAlive r rest | @lookupAbsent r rest | @detectForkFailed r rest | @detectUpdate r rest =>
    cases rest <;> cases hc'
  | _ => cases hc'

theorem CStep.to_done {ev : Event} (h : CStep env st c ch c' st') (hc : c.Serves env ev)
    (hty : ev.type = .removeProcess) (hc' : c' = .done ErrorCode.errorOk) : ∃ p, c = .removeKill p := by
  cases h with
  | kill => exact ⟨_, rfl⟩
  | removeAbsent => cases hc'
  | spawnFound | spawnForkFailed | insert | reloadAbsent | reloadForkFailed | reloadUpdate =>
    exact absurd (hc.1.symm.trans hty) nofun
  | snapshot | probeAlive | lookupAbsent | detectForkFailed | detectUpdate => exact hc.elim
  | _ => cases hc'

end

/-! ### The two phases -/

/-- The events of the sid that are on their way are stops. -/
def Conf.OnlyStops (k : Str) (v : Conf) : Prop :=
  ∀ i, ∀ ev ∈ v.queue i, ev.key = k → ev.type ≠ .createProcess ∧ ev.type ≠ .reloadProcess

/-- Some worker has executed a stop of the sid successfully and not popped it yet. -/
def Conf.JustStopped (k : Str) (v : Conf) : Prop :=
  ∃ i ev, v.event i = some ev ∧ ev.type = .removeProcess ∧ ev.key = k ∧
    v.thread (.worker i) = some (.done ErrorCode.errorOk)

/-- Some stop of the sid has succeeded after the first `n` events. -/
def Conf.HasStopped (k : Str) (n : Nat) (v : Conf) : Prop := ∃ d ∈ v.finished.drop n, d.stopped k = true

/-- The sid has its record, and a live process is the recorded one or the one the scheduler has forked. -/
structure Standing (k : Str) (n : Nat) (d : Doc) (v : Conf) : Prop where
  recs : recs k v.store.coll = [d]
  delete : ∀ i p, v.thread (.worker i) = some (.removeDelete p) → cStr p.sid = k → p.pid = d.pid
  kill : ∀ i p, v.thread (.worker i) = some (.removeKill p) → cStr p.sid ≠ k
  unstopped : ¬ v.JustStopped k ∧ ¬ v.HasStopped k n
  live : ∀ x ∈ v.store.os.live k, x = d.pid ∨
    ∃ p rest, v.thread .sched = some (.detectUpdate p rest) ∧ cStr p.sid = k ∧ p.pid = x
  respawn : ∀ c, v.thread .sched = some c → c.window = some k → d.pid ∉ v.store.os.live k

/-- The sid has no record, and the only live process is the one that is being killed. -/
structure Removed (k : Str) (n : Nat) (q : Int) (v : Conf) : Prop where
  recs : recs k v.store.coll = []
  target : ∀ i p, v.thread (.worker i) = some (.removeDelete p) ∨ v.thread (.worker i) = some (.removeKill p) →
    cStr p.sid = k → p.pid = q
  live : ∀ x ∈ v.store.os.live k, x = q
  respawn : ∀ c, v.thread .sched = some c → c.window ≠ some k
  stopped : v.JustStopped k ∨ v.HasStopped k n → v.store.os.live k = []

/-- One of the two phases. -/
def Phased (k : Str) (n : Nat) (v : Conf) : Prop := (∃ d, Standing k n d v) ∨ ∃ q, Removed k n q v

/-- What the service keeps while the sid is only being stopped. -/
structure Stopping (env : Env) (k : Str) (n : Nat) (v : Conf) : Prop where
  probed : v.Probed env
  length : n ≤ v.finished.length
  stops : v.OnlyStops k
  phase : Phased k n v

theorem start_ne (ev : Event) (c : Ctl) (h₁ : ∀ p, c ≠ .spawnQuery p) (h₂ : ∀ p, c ≠ .removeQuery p)
    (h₃ : ∀ sid, c ≠ .reloadQuery sid) (h₄ : c ≠ .asserting) : Ctl.start ev ≠ c := by
  unfold Ctl.start
  cases ev.type
  · exact (h₁ _).symm
  · exact (h₃ _).symm
  · exact (h₂ _).symm
  · exact h₄.symm

section

variable {k : Str} {n : Nat} {v v' : Conf}

theorem eq_nil_of_subset {l l' : List Int} (h : ∀ x ∈ l', x ∈ l) (hl : l = []) : l' = [] := by
  refine List.eq_nil_iff_forall_not_mem.mpr fun x hx => ?_
  have hmem := h x hx
  rw [hl] at hmem
  cases hmem

theorem Phased.frame (h : Phased k n v) (hrecs : recs k v'.store.coll = recs k v.store.coll)
    (hlive : ∀ x ∈ v'.store.os.live k, x ∈ v.store.os.live k)
    (hdelete : ∀ i p, v'.thread (.worker i) = some (.removeDelete p) → cStr p.sid = k →
      v.thread (.worker i) = some (.removeDelete p) ∨ ∃ d ∈ recs k v.store.coll, p.pid = d.pid)
    (hkill : ∀ i p, v'.thread (.worker i) = some (.removeKill p) → cStr p.sid = k →
      v.thread (.worker i) = some (.removeKill p))
    (hstop : v'.JustStopped k ∨ v'.HasStopped k n → v.JustStopped k ∨ v.HasStopped k n)
    (hkeep : ∀ p rest, v.thread .sched = some (.detectUpdate p rest) → cStr p.sid = k →
      v'.thread .sched = some (.detectUpdate p rest))
    (hresp : ∀ c, v'.thread .sched = some c → c.window = some k → v.thread .sched = some c ∨
      ∃ d ∈ recs k v.store.coll, d.pid ∉ v.store.os.live k) : Phased k n v' := by
  rcases h with ⟨d, h⟩ | ⟨q, h⟩
  · refine .inl ⟨d, hrecs.trans h.recs, fun i p hp hk => ?_, fun i p hp hk => ?_, ?_, fun x hx => ?_,
      fun c hc hr hmem => ?_⟩
    · rcases hdelete i p hp hk with hp | ⟨e, he, hpid⟩
      · exact h.delete i p hp hk
      · rw [h.recs] at he
        rw [hpid, List.mem_singleton.mp he]
    · exact h.kill i p (hkill i p hp hk) hk
    · have hun : ¬ (v.JustStopped k ∨ v.HasStopped k n) := fun hs => hs.elim h.unstopped.1 h.unstopped.2
      exact ⟨fun hj => hun (hstop (.inl hj)), fun hj => hun (hstop (.inr hj))⟩
    · rcases h.live x (hlive x hx) with hd | ⟨p, rest, hp, hk, hpid⟩
      · exact .inl hd
      · exact .inr ⟨p, rest, hkeep p rest hp hk, hk, hpid⟩
    · rcases hresp c hc hr with hc | ⟨e, he, hdead⟩
      · exact h.respawn c hc hr (hlive _ hmem)
      · rw [h.recs] at he
        rw [List.mem_singleton.mp he] at hdead
        exact hdead (hlive _ hmem)
  · refine .inr ⟨q, hrecs.trans h.recs, fun i p hp hk => ?_, fun x hx => h.live x (hlive x hx),
      fun c hc hr => ?_, fun hs => eq_nil_of_subset hlive (h.stopped (hstop hs))⟩
    · rcases hp with hp | hp
      · rcases hdelete i p hp hk with hp | ⟨e, he, -⟩
        · exact h.target i p (.inl hp) hk
        · rw [h.recs] at he
          cases he
      · exact h.target i p (.inr (hkill i p hp hk)) hk
    · rcases hresp c hc hr with hc | ⟨e, he, -⟩
      · exact h.respawn c hc hr
      · rw [h.recs] at he
        cases he

theorem Phased.same (h : Phased k n v) (hrecs : recs k v'.store.coll = recs k v.store.coll)
    (hlive : ∀ x ∈ v'.store.os.live k, x ∈ v.store.os.live k) (hthread : v'.thread = v.thread)
    (hstop : v'.JustStopped k ∨ v'.HasStopped k n → v.JustStopped k ∨ v.HasStopped k n) : Phased k n v' :=
  h.frame hrecs hlive (fun _ _ hp _ => .inl (hthread ▸ hp)) (fun _ _ hp _ => hthread ▸ hp) hstop
    (fun _ _ hp _ => hthread.symm ▸ hp) fun _ hc _ => .inl (hthread ▸ hc)

theorem Phased.sched (h : Phased k n v) {o : Option Ctl}
    (hold : ∀ p rest, v.thread .sched ≠ some (.detectUpdate p rest)) (hnew : ∀ c, o = some c → c.window ≠ some k) :
    Phased k n { v with thread := update v.thread .sched o } :=
  h.frame rfl (fun _ => id) (fun _ _ hp _ => .inl hp) (fun _ _ hp _ => hp) id
    (fun p rest hp _ => absurd hp (hold p rest)) fun c hc hr => absurd hr (hnew c hc)

theorem Phased.front (h : Phased k n v) (i : Nat) (ev : Event) :
    Phased k n { v with
      thread := update v.thread (.worker i) (some (Ctl.start ev))
      event := update v.event i (some ev) } := by
  refine h.frame rfl (fun _ => id) (fun j p hp hk => ?_) (fun j p hp hk => ?_) ?_
    (fun _ _ hp _ => hp) fun _ hc _ => .inl hc
  · rcases of_update_some hp with ⟨-, hc⟩ | ⟨-, hp⟩
    · exact absurd hc.symm (start_ne ev _ nofun nofun nofun nofun)
    · exact .inl hp
  · rcases of_update_some hp with ⟨-, hc⟩ | ⟨-, hp⟩
    · exact absurd hc.symm (start_ne ev _ nofun nofun nofun nofun)
    · exact hp
  · refine Or.imp (fun ⟨j, ev', hev', hty, hkey, hdone⟩ => ?_) id
    rcases of_update_some hdone with ⟨-, hc⟩ | ⟨hj, hdone⟩
    · exact absurd hc.symm (start_ne ev _ nofun nofun nofun nofun)
    · have hji : j ≠ i := fun hji => hj (congrArg _ hji)
      exact ⟨j, ev', (update_of_ne hji ..).symm.trans hev', hty, hkey, hdone⟩

theorem Phased.pop (h : Phased k n v) (hlen : n ≤ v.finished.length) {i : Nat} {ev : Event} {q : List Event} {rtn : Int}
    (hev : v.event i = some ev) (ht : v.thread (.worker i) = some (.done rtn)) :
    Phased k n { v with
      thread := update v.thread (.worker i) none
      event := update v.event i none
      queue := update v.queue i q
      finished := v.finished ++ [⟨i, ev, rtn⟩] } := by
  refine h.frame rfl (fun _ => id) (fun j p hp _ => .inl (of_update_none hp).2)
    (fun j p hp _ => (of_update_none hp).2) ?_ (fun _ _ hp _ => hp) fun _ hc _ => .inl hc
  rintro (⟨j, ev', hev', hty, hkey, hdone⟩ | ⟨d, hd, hstopped⟩)
  · exact .inl ⟨j, ev', (of_update_none hev').2, hty, hkey, (of_update_none hdone).2⟩
  · replace hd : d ∈ (v.finished ++ [(⟨i, ev, rtn⟩ : Done)]).drop n := hd
    rw [List.drop_append_of_le_length hlen] at hd
    rcases List.mem_append.mp hd with hd | hd
    · exact .inr ⟨d, hd, hstopped⟩
    · obtain rfl := List.mem_singleton.mp hd
      simp only [Done.stopped, Bool.and_eq_true, decide_eq_true_eq] at hstopped
      obtain ⟨⟨hty, hkey⟩, hrtn⟩ := hstopped
      exact .inl ⟨i, ev, hev, hty, hkey, hrtn ▸ ht⟩

end

namespace Stopping

variable {env : Env} {k : Str} {n : Nat} {v v' : Conf} {l : Label}

theorem event_key (h : Stopping env k n v) {i : Nat} {ev : Event} (hev : v.event i = some ev)
    (hk : ev.key = k) : ev.type ≠ .createProcess ∧ ev.type ≠ .reloadProcess := by
  obtain ⟨q, hq⟩ := h.probed.fits.front i ev hev
  exact h.stops i ev (hq ▸ List.mem_cons_self) hk

theorem target_worker (hsid : env.KeepsSids) (h : Stopping env k n v) {i : Nat} {c : Ctl}
    (ht : v.thread (.worker i) = some c)
    (hk : c.target = some k) : ∃ p, c = .removeDelete p ∧ cStr p.sid = k := by
  obtain ⟨ev, hev, hserves⟩ := h.probed.fits.worker i c ht
  cases c with
  | spawnFork p | spawnInsert p =>
    obtain ⟨hty, hkey⟩ := hserves
    exact absurd hty (h.event_key hev (hkey.symm.trans (Option.some.inj hk))).1
  | reloadFork p | reloadUpdate p =>
    have hkey : cStr p.sid = ev.key := hsid.key hserves.2
    exact absurd hserves.1 (h.event_key hev (hkey.symm.trans (Option.some.inj hk))).2
  | removeDelete p => exact ⟨p, rfl, Option.some.inj hk⟩
  | detectFork | detectUpdate => exact hserves.elim
  | _ => cases hk

theorem worker_other (hsid : env.KeepsSids) (h : Stopping env k n v) {i : Nat} {ch : Choice} {c c' : Ctl} {st' : Store}
    (ht : v.thread (.worker i) = some c) (hstep : CStep env v.store c ch c' st') (hk : c.target ≠ some k)
    (hkill : ∀ p, c = .removeKill p → cStr p.sid ≠ k) :
    Phased k n { v with thread := update v.thread (.worker i) (some c'), store := st' } := by
  obtain ⟨ev, hev, hserves⟩ := h.probed.fits.worker i c ht
  refine Phased.frame h.phase (hstep.other hk).1 (hstep.live_subset hk) (fun j p hp hpk => ?_) (fun j p hp hpk => ?_) ?_
    (fun p rest hp _ => hp) fun c₁ hc₁ _ => .inl hc₁
  · rcases of_update_some hp with ⟨hj, hc'⟩ | ⟨-, hp⟩
    · obtain ⟨q, d, rfl, hd, rfl⟩ := hstep.to_delete hc'.symm
      obtain ⟨hmem, hkey⟩ := recs_head hd
      have hdk : d.sid = k := by
        rw [← hpk, Doc.seen, hsid, hkey, cStr_cStr]
      exact .inr ⟨d, mem_recs.mpr ⟨hmem, hdk⟩, rfl⟩
    · exact .inl hp
  · rcases of_update_some hp with ⟨hj, hc'⟩ | ⟨-, hp⟩
    · have hc := hstep.to_kill hc'.symm
      subst hc
      exact absurd (congrArg some hpk) hk
    · exact hp
  · rintro (⟨j, ev', hev', hty, hkey, hdone⟩ | hfin)
    · rcases of_update_some hdone with ⟨hj, hc'⟩ | ⟨-, hdone⟩
      · cases hj
        obtain rfl : ev = ev' := Option.some.inj (hev.symm.trans hev')
        obtain ⟨p, rfl⟩ := hstep.to_done hserves hty hc'.symm
        exact absurd ((hsid.key hserves.2).trans hkey) (hkill p rfl)
      · exact .inl ⟨j, ev', hev', hty, hkey, hdone⟩
    · exact .inr hfin

theorem delete (h : Stopping env k n v) {i : Nat} {p : ProcessInfo}
    (ht : v.thread (.worker i) = some (.removeDelete p)) (hk : cStr p.sid = k)
    (hsched : ∀ c, v.thread .sched = some c → c.window ≠ some k) :
    Phased k n { v with
      thread := update v.thread (.worker i) (some (.removeKill p))
      store := ⟨dropRec (cStr p.sid) v.store.coll, v.store.os⟩ } := by
  subst hk
  have hjust : ∀ st, Conf.JustStopped (cStr p.sid) { v with
      thread := update v.thread (.worker i) (some (.removeKill p)), store := st } →
      v.JustStopped (cStr p.sid) := by
    rintro st ⟨j, ev, hev, hty, hkey, hdone⟩
    rcases of_update_some hdone with ⟨-, hc⟩ | ⟨-, hdone⟩
    · cases hc
    · exact ⟨j, ev, hev, hty, hkey, hdone⟩
  rcases h.phase with ⟨d, h⟩ | ⟨q, h⟩
  · refine .inr ⟨d.pid, ?_, fun j r hr hrk => ?_, fun x hx => ?_, hsched, fun hs => ?_⟩
    · show recs _ (dropRec _ _) = []
      rw [recs_dropRec_self, h.recs]
      rfl
    · rcases hr with hr | hr
      · rcases of_update_some hr with ⟨-, hc⟩ | ⟨-, hr⟩
        · cases hc
        · exact h.delete j r hr hrk
      · rcases of_update_some hr with ⟨-, hc⟩ | ⟨-, hr⟩
        · cases hc
          exact h.delete i p ht rfl
        · exact absurd hrk (h.kill j r hr)
    · rcases h.live x hx with hx | ⟨r, rest, hr, hrk, -⟩
      · exact hx
      · exact absurd (congrArg some hrk) (hsched _ hr)
    · exact (hs.elim (fun hj => h.unstopped.1 (hjust _ hj)) h.unstopped.2).elim
  · refine .inr ⟨q, ?_, fun j r hr hrk => ?_, h.live, h.respawn, fun hs => ?_⟩
    · show recs _ (dropRec _ _) = []
      rw [recs_dropRec_self, h.recs]
      rfl
    · rcases hr with hr | hr
      · rcases of_update_some hr with ⟨-, hc⟩ | ⟨-, hr⟩
        · cases hc
        · exact h.target j r (.inl hr) hrk
      · rcases of_update_some hr with ⟨-, hc⟩ | ⟨-, hr⟩
        · cases hc
          exact h.target i p (.inl ht) rfl
        · exact h.target j r (.inr hr) hrk
    · exact h.stopped (hs.imp (hjust _) id)

theorem kill (h : Stopping env k n v) {i : Nat} {p : ProcessInfo}
    (ht : v.thread (.worker i) = some (.removeKill p)) (hk : cStr p.sid = k) :
    Phased k n { v with
      thread := update v.thread (.worker i) (some (.done ErrorCode.errorOk))
      store := ⟨v.store.coll, v.store.os.drop p.pid⟩ } := by
  rcases h.phase with ⟨d, h⟩ | ⟨q, h⟩
  · exact absurd hk (h.kill i p ht)
  · have hpq := h.target i p (.inr ht) hk
    have hlive : (v.store.os.drop p.pid).live k = [] := by
      rw [live_drop]
      refine List.filter_eq_nil_iff.mpr fun x hx => ?_
      rw [h.live x hx, hpq]
      simp
    refine .inr ⟨q, h.recs, fun j r hr hrk => ?_, fun x hx => ?_, h.respawn, fun _ => hlive⟩
    · rcases hr with hr | hr
      · rcases of_update_some hr with ⟨-, hc⟩ | ⟨-, hr⟩
        · cases hc
        · exact h.target j r (.inl hr) hrk
      · rcases of_update_some hr with ⟨-, hc⟩ | ⟨-, hr⟩
        · cases hc
        · exact h.target j r (.inr hr) hrk
    · rw [show Os.live k _ = [] from hlive] at hx
      cases hx

theorem sched_other (hsid : env.KeepsSids) (h : Stopping env k n v) {ch : Choice} {c c' : Ctl} {st' : Store}
    (ht : v.thread .sched = some c) (hstep : CStep env v.store c ch c' st') (hk : c.target ≠ some k) :
    Phased k n { v with thread := update v.thread .sched (some c'), store := st' } := by
  refine Phased.frame h.phase (hstep.other hk).1 (hstep.live_subset hk) (fun _ _ hp _ => .inl hp)
    (fun _ _ hp _ => hp) id (fun p rest hp hpk => ?_) fun c₁ hc₁ hr => ?_
  · obtain rfl : c = .detectUpdate p rest := Option.some.inj (ht.symm.trans hp)
    exact absurd (congrArg some hpk) hk
  · obtain rfl : c' = c₁ := Option.some.inj hc₁
    rcases hstep.window hsid hr with hr | ⟨-, -, d, hfinds, hkey⟩
    · exact absurd (Ctl.target_of_window hr) hk
    · have hscan := h.probed.fits.sched c ht
      cases c with
      | reloadQuery => exact hscan.elim
      | detectLookup r rest =>
        obtain ⟨hmem, hpid⟩ := of_find?_pid hfinds
        have hdsid : d.sid = k := (h.probed.sids d hmem).symm.trans hkey
        refine .inr ⟨d, mem_recs.mpr ⟨hmem, hdsid⟩, fun hlive => h.probed.dead r rest ht ?_⟩
        exact hpid ▸ spawned_of_live hlive
      | _ => exact hfinds.elim

theorem fork (h : Stopping env k n v) {p : ProcessInfo} {rest : List ProcessInfo} {x : Int}
    (ht : v.thread .sched = some (.detectFork p rest)) (hk : cStr p.sid = k) (hx : x ∉ v.store.os.used) :
    Phased k n { v with
      thread := update v.thread .sched (some (.detectUpdate { p with pid := x } rest))
      store := ⟨v.store.coll, v.store.os.add ⟨x, some p⟩⟩ } := by
  rcases h.phase with ⟨d, hs⟩ | ⟨q, hs⟩
  · have hdead : d.pid ∉ v.store.os.live k := hs.respawn _ ht (congrArg some hk)
    have hnone : v.store.os.live k = [] := by
      refine List.eq_nil_iff_forall_not_mem.mpr fun y hy => ?_
      rcases hs.live y hy with rfl | ⟨r, rest', hr, -⟩
      · exact hdead hy
      · rw [ht] at hr
        cases hr
    have hlive : (v.store.os.add ⟨x, some p⟩).live k = [x] := by
      rw [live_add, if_pos (by simp [Proc.runs, hk]), hnone]
      rfl
    have hd : d ∈ v.store.coll := by
      have hmem : d ∈ recs k v.store.coll := hs.recs ▸ List.mem_singleton_self d
      exact (mem_recs.mp hmem).1
    refine .inl ⟨d, hs.recs, hs.delete, hs.kill, hs.unstopped, fun y hy => ?_, fun c hc hr hmem => ?_⟩
    · rw [show Os.live k _ = [x] from hlive] at hy
      exact .inr ⟨_, rest, rfl, hk, (List.mem_singleton.mp hy).symm⟩
    · rw [show Os.live k _ = [x] from hlive] at hmem
      exact hx (List.mem_singleton.mp hmem ▸ h.probed.covered.coll d hd)
  · exact absurd (congrArg some hk) (hs.respawn _ ht)

theorem update (h : Stopping env k n v) {p : ProcessInfo} {rest : List ProcessInfo}
    (ht : v.thread .sched = some (.detectUpdate p rest)) (hk : cStr p.sid = k)
    (hworkers : ∀ i r, v.thread (.worker i) = some (.removeDelete r) → cStr r.sid ≠ k) :
    Phased k n { v with
      thread := Function.update v.thread .sched (some (Ctl.detectNext rest))
      store := ⟨setPid (cStr p.sid) p.pid v.store.coll, v.store.os⟩ } := by
  subst hk
  rcases h.phase with ⟨d, hs⟩ | ⟨q, hs⟩
  · refine .inl ⟨{ d with pid := p.pid }, ?_, fun i r hr hrk => absurd hrk (hworkers i r hr), hs.kill,
      hs.unstopped, fun y hy => .inl ?_, fun c hc hr => ?_⟩
    · show recs _ (setPid _ _ _) = _
      rw [recs_setPid_self, hs.recs]
      rfl
    · rcases hs.live y hy with rfl | ⟨r, rest', hr, -, hpid⟩
      · exact absurd hy (hs.respawn _ ht rfl)
      · rw [ht] at hr
        cases hr
        exact hpid.symm
    · obtain rfl := Option.some.inj hc
      rw [Ctl.window_detectNext] at hr
      cases hr
  · exact absurd rfl (hs.respawn _ ht)

theorem worker (hsid : env.KeepsSids) (h : Stopping env k n v) {i : Nat} {ch : Choice} {c c' : Ctl} {st' : Store}
    (ht : v.thread (.worker i) = some c) (hstep : CStep env v.store c ch c' st')
    (hdelete : ∀ p, c = .removeDelete p → cStr p.sid = k → ∀ c₁, v.thread .sched = some c₁ → c₁.window ≠ some k) :
    Phased k n { v with thread := Function.update v.thread (.worker i) (some c'), store := st' } := by
  by_cases hk : c.target = some k
  · obtain ⟨p, rfl, hpk⟩ := h.target_worker hsid ht hk
    cases hstep
    exact h.delete ht hpk (hdelete p rfl hpk)
  · by_cases hkill : ∃ p, c = .removeKill p ∧ cStr p.sid = k
    · obtain ⟨p, rfl, hpk⟩ := hkill
      cases hstep
      exact h.kill ht hpk
    · exact h.worker_other hsid ht hstep hk fun p hp hpk => hkill ⟨p, hp, hpk⟩

theorem sched (hsid : env.KeepsSids) (h : Stopping env k n v) {ch : Choice} {c c' : Ctl} {st' : Store}
    (ht : v.thread .sched = some c)
    (hstep : CStep env v.store c ch c' st') (hfresh : ∀ p, ch = .pid p → p ∉ v.store.os.used)
    (hupdate : ∀ p rest, c = .detectUpdate p rest → cStr p.sid = k →
      ∀ i r, v.thread (.worker i) = some (.removeDelete r) → cStr r.sid ≠ k) :
    Phased k n { v with thread := Function.update v.thread .sched (some c'), store := st' } := by
  by_cases hk : c.target = some k
  · have hscan := h.probed.fits.sched c ht
    cases c with
    | detectFork p rest =>
      have hpk : cStr p.sid = k := Option.some.inj hk
      cases hstep with
      | detectForkFailed =>
        refine h.phase.sched (fun q rest' hq => ?_) fun c hc => ?_
        · rw [ht] at hq
          cases hq
        · obtain rfl := Option.some.inj hc
          rw [Ctl.window_detectNext]
          exact nofun
      | detectForked hx hfree => exact h.fork ht hpk (hfresh _ rfl)
    | detectUpdate p rest =>
      have hpk : cStr p.sid = k := Option.some.inj hk
      cases hstep
      exact h.update ht hpk (hupdate p rest rfl hpk)
    | spawnFork | spawnInsert | removeDelete | reloadFork | reloadUpdate => exact hscan.elim
    | _ => cases hk
  · exact h.sched_other hsid ht hstep hk

theorem move (hsid : env.KeepsSids) (h : Stopping env k n v) (hm : Moves env v l v') (hdb : l.dbOk = true)
    (hfresh : ∀ p, l.claimed = some p → p ∉ v.store.os.used)
    (hput : ∀ ev, l = .put ev → ev.key = k → ev.type ≠ .createProcess ∧ ev.type ≠ .reloadProcess)
    (hdelete : ∀ i ch p, l = .call (.worker i) ch → v.thread (.worker i) = some (.removeDelete p) →
      cStr p.sid = k → ∀ c, v.thread .sched = some c → c.window ≠ some k)
    (hupdate : ∀ ch p rest, l = .call .sched ch → v.thread .sched = some (.detectUpdate p rest) →
      cStr p.sid = k → ∀ i r, v.thread (.worker i) = some (.removeDelete r) → cStr r.sid ≠ k) :
    Stopping env k n v' := by
  have hprobed := h.probed.move hm hdb hfresh
  have hstops : v'.OnlyStops k := by
    intro i ev hev hk
    rcases hm.mem_queue hev with hev | hl
    · exact h.stops i ev hev hk
    · exact hput ev hl hk
  cases hm with
  | put hn hlt => exact ⟨hprobed, h.length, hstops, h.phase.same rfl (fun _ => id) rfl id⟩
  | front hidle hq => exact ⟨hprobed, h.length, hstops, h.phase.front _ _⟩
  | @call τ ch c c' st' ht hc =>
    have hstep := h.probed.fits.cstep ht hdb hc
    refine ⟨hprobed, h.length, hstops, ?_⟩
    cases τ with
    | worker i => exact h.worker hsid ht hstep fun p hp => hdelete i ch p rfl (hp ▸ ht)
    | sched =>
      refine h.sched hsid ht hstep (fun p hp => ?_) fun p rest hp => hupdate ch p rest rfl (hp ▸ ht)
      subst hp
      exact hfresh p rfl
  | pop hev ht hq =>
    refine ⟨hprobed, ?_, hstops, h.phase.pop h.length hev ht⟩
    show n ≤ (v.finished ++ _).length
    rw [List.length_append]
    exact Nat.le_add_right_of_le h.length
  | abort => exact ⟨hprobed, h.length, hstops, h.phase.same rfl (fun _ => id) rfl id⟩
  | detect ht =>
    refine ⟨hprobed, h.length, hstops, h.phase.sched (fun p rest hp => ?_) fun c hc => ?_⟩
    · rw [ht] at hp
      cases hp
    · obtain rfl := Option.some.inj hc
      exact nofun
  | detectEnd ht =>
    refine ⟨hprobed, h.length, hstops, h.phase.sched (fun p rest hp => ?_) nofun⟩
    rw [ht] at hp
    cases hp
  | die =>
    refine ⟨hprobed, h.length, hstops, h.phase.same rfl (fun x hx => ?_) rfl id⟩
    replace hx := live_drop ▸ hx
    exact (List.mem_filter.mp hx).1
  | appear =>
    refine ⟨hprobed, h.length, hstops, h.phase.same rfl (fun x hx => ?_) rfl id⟩
    exact live_add_unowned v.store.os _ k ▸ hx

end Stopping

/-! ### Runs -/

section

variable {env : Env} {k : Str} {s : Sys Ctl} {l : Label}

theorem next_removeDelete {i : Nat} {p : ProcessInfo} (ht : s.thread (.worker i) = some (.removeDelete p)) :
    s.next (points env) (.worker i) = some (.remove (.sid (cStr p.sid))) :=
  congrArg (Option.bind · _) ht

theorem stopApart_delete (h : s.stopApart (points env) k l = true) {i : Nat} {ch : Choice} {p : ProcessInfo}
    (hl : l = .call (.worker i) ch) (ht : s.thread (.worker i) = some (.removeDelete p)) (hk : cStr p.sid = k) :
    ∀ c, s.thread .sched = some c → c.window ≠ some k := by
  subst hl
  intro c hc hr
  have hany := of_decide_eq_true h (hk ▸ next_removeDelete ht)
  rw [next_window hc hr] at hany
  cases hany

theorem stopApart_update (h : s.stopApart (points env) k l = true) {ch : Choice} {p : ProcessInfo}
    {rest : List ProcessInfo} (hl : l = .call .sched ch) (ht : s.thread .sched = some (.detectUpdate p rest))
    (hk : cStr p.sid = k) :
    ∀ i r, s.thread (.worker i) = some (.removeDelete r) → cStr r.sid ≠ k := by
  subst hl
  intro i r hr hrk
  have hnext : s.next (points env) .sched = some (.update (.sid (cStr p.sid)) p.pid) :=
    congrArg (Option.bind · _) ht
  simp only [Sys.stopApart, hnext, decide_eq_true_eq] at h
  obtain ⟨⟨ev, c⟩, hjob, -⟩ := Option.map_eq_some_iff.mp hr
  have hi := (List.getElem?_eq_some_iff.mp (Sys.getElem?_of_job hjob)).1
  exact h hk i hi (hrk ▸ next_removeDelete hr)

end

theorem stopApart_map {env : Env} {k : Str} (s : Sys Ctl) (l : Label) :
    (s.map (Ctl.code env)).stopApart (service env) k l = s.stopApart (points env) k l := by
  have hnext := Sys.next_map (points_hom env).view s
  have hlen : (s.map (Ctl.code env)).workerList.length = s.workerList.length := List.length_map _
  cases l with
  | call τ ch =>
    cases τ with
    | worker i => simp only [Sys.stopApart, hnext]
    | sched => simp only [Sys.stopApart, hnext, hlen]
  | _ => rfl

theorem stopping_of_quiet {env : Env} (hsid : env.KeepsSids) {k : Str} {s : Sys Ctl} (hprobed : s.conf.Probed env)
    (h : s.Quiet (points env) k) : Stopping env k s.finished.length s.conf := by
  have hfits := hprobed.fits
  have hevent : ∀ i ev, s.conf.event i = some ev → ev.key ≠ k := by
    intro i ev hev
    obtain ⟨q, hq⟩ := hfits.front i ev hev
    replace hq : s.queue i = ev :: q := hq
    exact h.queues i ev (hq ▸ List.mem_cons_self)
  have hworker : ∀ i p, s.conf.thread (.worker i) = some (.removeDelete p) ∨
      s.conf.thread (.worker i) = some (.removeKill p) → cStr p.sid ≠ k := by
    intro i p hp hk
    rcases hp with hp | hp
    · obtain ⟨ev, hev, -, hkey⟩ := hfits.worker i _ hp
      exact hevent i ev hev ((hsid.key hkey).symm.trans hk)
    · obtain ⟨ev, hev, -, hkey⟩ := hfits.worker i _ hp
      exact hevent i ev hev ((hsid.key hkey).symm.trans hk)
  have hrespawn : ∀ c, s.conf.thread .sched = some c → c.window ≠ some k := by
    intro c hc hr
    have hany : (s.next (points env) .sched).any (Call.respawns k) = true :=
      next_window (show s.thread .sched = some c from hc) hr
    rw [h.sched] at hany
    cases hany
  have hjust : ¬ s.conf.JustStopped k := by
    rintro ⟨i, ev, hev, -, hkey, -⟩
    exact hevent i ev hev hkey
  have hnone : ¬ s.conf.HasStopped k s.finished.length := by
    rintro ⟨d, hd, -⟩
    rw [show s.conf.finished.drop s.finished.length = [] from List.drop_length] at hd
    cases hd
  refine ⟨hprobed, Nat.le_refl _, fun i ev hev hk => absurd hk (h.queues i ev hev), ?_⟩
  have hunique := h.unique
  cases hr : recs k s.coll with
  | nil =>
    have hlive : s.os.live k = [] := by
      refine List.eq_nil_iff_forall_not_mem.mpr fun x hx => ?_
      obtain ⟨d, hd, -⟩ := h.recorded x hx
      rw [hr] at hd
      cases hd
    refine .inr ⟨0, hr, fun i p hp hk => absurd hk (hworker i p hp), fun x hx => ?_, hrespawn, fun _ => hlive⟩
    rw [show s.conf.store.os.live k = [] from hlive] at hx
    cases hx
  | cons d rest =>
    have hrest : rest = [] := by
      rw [hr, List.length_cons] at hunique
      exact List.eq_nil_of_length_eq_zero (by omega)
    subst hrest
    refine .inl ⟨d, hr, fun i p hp hk => absurd hk (hworker i p (.inl hp)), fun i p hp => hworker i p (.inr hp),
      ⟨hjust, hnone⟩, fun x hx => .inl ?_, fun c hc hres => absurd hres (hrespawn c hc)⟩
    obtain ⟨e, he, rfl⟩ := h.recorded x hx
    rw [hr] at he
    rw [List.mem_singleton.mp he]

/-- **A stopped stream stays stopped**, when `remove_process` does not remove the record while the
scheduler respawns the sid, the scheduler does not update it while some worker is about to remove it, and
sids come back. -/
theorem stopped_stream_stays_stopped {env : Env} {W : Nat} {coll : List Doc} {os : Os} {ls₀ ls : List Label}
    {s₀ s : Sys (Act Int)} {k : Str} (hcoll : Written coll os) (hintact : ∀ d ∈ coll, d.intact env ["sid"] = true)
    (h₀ : Runs (step (service env))
      (fun t l => (l.dbOk = true ∧ t.freshFork l = true) ∧ l.intact env ["sid"] = true) (Sys.boot W coll os) ls₀ s₀)
    (hquiet : s₀.Quiet (service env) k)
    (h : Runs (step (service env))
      (fun t l => (l.dbOk = true ∧ t.freshFork l = true ∧ l.noRestart k = true) ∧
        t.stopApart (service env) k l = true ∧ l.intact env ["sid"] = true) s₀ ls s)
    (hstopped : ∃ d ∈ s.finished.drop s₀.finished.length, d.stopped k = true) :
    recs k s.coll = [] ∧ s.os.live k = [] := by
  have hrec := recording_of_runs hintact (fun _ _ hok => hok.2) h₀
  replace h := hrec.runs_keep (fun _ _ hok => hok.2.2) h
  replace h₀ := runs_keep hintact (fun _ _ hok => hok.2) h₀
  have hsid := keep_sids env
  replace h : Runs (step (service (env.keep ["sid"])))
      (fun t l => (l.dbOk = true ∧ t.freshFork l = true ∧ l.noRestart k = true) ∧
        t.stopApart (service (env.keep ["sid"])) k l = true) s₀ ls s := h.mono fun _ _ hok => ⟨hok.1, hok.2.1⟩
  replace hquiet : s₀.Quiet (service (env.keep ["sid"])) k :=
    ⟨hquiet.queues, hquiet.sched, hquiet.unique, hquiet.recorded⟩
  clear hintact hrec
  generalize env.keep ["sid"] = env' at h₀ h hsid hquiet
  rw [← Sys.map_boot (Ctl.code env')] at h₀
  obtain ⟨t₀, rfl, hrun₀⟩ := runs_points h₀
  obtain ⟨t, rfl, hrun⟩ := runs_points h
  have hprobed := probed_of_runs hcoll hrun₀ fun _ _ hok => hok.1
  have hnext := Sys.next_map (points_hom env').view t₀
  have hquiet₀ : t₀.Quiet (points env') k :=
    ⟨fun i ev hev => hquiet.queues i ev ((Sys.map_queue _ t₀ i).symm ▸ hev),
      (hnext .sched) ▸ hquiet.sched, hquiet.unique, hquiet.recorded⟩
  have hinv : Stopping env' k t₀.finished.length t.conf := by
    refine hrun.inv (fun u => Stopping env' k t₀.finished.length u.conf)
      (stopping_of_quiet hsid hprobed hquiet₀) ?_
    intro u l u' hinv ⟨⟨hdb, hfresh, hput⟩, hapart⟩ hstep
    rw [stopApart_map] at hapart
    refine hinv.move hsid (moves_of_step hstep) hdb (claimed_fresh hfresh) (fun ev hl => ?_)
      (fun i ch p hl ht hk => stopApart_delete hapart hl ht hk)
      fun ch p rest hl ht hk => stopApart_update hapart hl ht hk
    subst hl
    exact of_decide_eq_true hput
  rcases hinv.phase with ⟨d, hs⟩ | ⟨q, hr⟩
  · exact absurd hstopped hs.unstopped.2
  · exact ⟨hr.recs, hr.stopped (.inr hstopped)⟩

/-! ### A stop during a respawn -/

/-- One stream with its record and its live process. -/
def oneStream : Sys (Act Int) := Sys.boot (1 : Nat) [sampleDoc [1] 10] ⟨[⟨10, some (sampleInfo [1])⟩], [10]⟩

theorem oneStream_quiet : oneStream.Quiet (service sampleEnv) [1] where
  queues i := by
    match i with
    | 0 => decide
    | _ + 1 => exact nofun
  sched := rfl
  unique := by decide
  recorded := by decide

theorem oneStream_written : Written [sampleDoc [1] 10] ⟨[⟨10, some (sampleInfo [1])⟩], [10]⟩ :=
  ⟨by decide, by decide⟩

/-- The process dies, the scheduler finds it dead and finds its record, the stream is stopped, and the
scheduler respawns it. -/
def stopDuringRespawn : List Label :=
  [.detect, .call .sched .ok, .die 10, .call .sched .ok, .call .sched .ok, .put (stopEvent [1])] ++
    stopLabels 0 ++ [.call .sched (.pid 11), .call .sched .ok, .detectEnd]

def stopDuringRespawnEnd : Sys (Act Int) :=
  (check (step (service sampleEnv))
    (fun t l => l.dbOk = true ∧ t.freshFork l = true ∧ l.noRestart [1] = true) stopDuringRespawn
    oneStream).get (by decide)

theorem stopped_stream_restarts :
    ¬ ∀ (env : Env) (W : Nat) (coll : List Doc) (os : Os) (ls₀ ls : List Label) (s₀ s : Sys (Act Int)) (k : Str),
      Written coll os →
      Runs (step (service env)) (fun t l => l.dbOk = true ∧ t.freshFork l = true) (Sys.boot W coll os) ls₀ s₀ →
      s₀.Quiet (service env) k →
      Runs (step (service env))
        (fun t l => l.dbOk = true ∧ t.freshFork l = true ∧ l.noRestart k = true) s₀ ls s →
      (∃ d ∈ s.finished.drop s₀.finished.length, d.stopped k = true) → s.sched = none →
      recs k s.coll = [] ∧ s.os.live k = [] := by
  intro h
  have hsched : stopDuringRespawnEnd.sched = none := Option.isNone_iff_eq_none.mp (by decide)
  have hclaim := h sampleEnv 1 _ _ [] stopDuringRespawn oneStream stopDuringRespawnEnd [1] oneStream_written
    .nil oneStream_quiet (runs_get _) (by decide) hsched
  revert hclaim
  decide

/-- The stream is stopped after the scheduler has respawned it. -/
def stopAfterRespawn : List Label :=
  [.detect, .call .sched .ok, .die 10, .call .sched .ok, .call .sched .ok, .call .sched (.pid 11),
    .call .sched .ok, .put (stopEvent [1])] ++ stopLabels 0 ++ [.detectEnd]

def stopAfterRespawnEnd : Sys (Act Int) :=
  (check (step (service sampleEnv))
    (fun t l => (l.dbOk = true ∧ t.freshFork l = true ∧ l.noRestart [1] = true) ∧
      t.stopApart (service sampleEnv) [1] l = true ∧ l.intact sampleEnv ["sid"] = true) stopAfterRespawn
    oneStream).get (by decide)

theorem stopped_stream_stays_stopped_after :
    recs [1] stopAfterRespawnEnd.coll = [] ∧ stopAfterRespawnEnd.os.live [1] = [] :=
  stopped_stream_stays_stopped (W := 1) oneStream_written (by decide) (.nil : Runs _ _ _ [] oneStream) oneStream_quiet
    (runs_get _) (by decide)

end PullStream
