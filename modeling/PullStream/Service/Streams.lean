import PullStream.Service.Scheduler
/-!
# One stream among others

Seen from a single sid the store is in one of two states: it is *streaming*, with one record and one
live process, which has the pid of the record, or it is *gone*, with no record and no live process
(`Status`). A start or a stop of the sid leads from one of them through the points of the function
(`Ctl.Phase`) to the state that is named by the type of the event, and nothing that is done for other
sids shows (`CStep.frame`).

`Streams` says this for every sid in a run in which no two workers are busy with one sid: a sid that no
worker is busy with is in the state its finished events lead to, and a sid some worker is busy with is in
the phase of the point the worker has reached.
-/

namespace PullStream

open Function Transition Family

/-! ### The state of a sid -/

/-- One record and one live process, which has the pid of the record. -/
def Streaming (k : Str) (st : Store) : Prop := ∃ d, recs k st.coll = [d] ∧ st.os.live k = [d.pid]

/-- No record and no live process. -/
def Gone (k : Str) (st : Store) : Prop := recs k st.coll = [] ∧ st.os.live k = []

def Status (b : Bool) (k : Str) (st : Store) : Prop := if b then Streaming k st else Gone k st

/-- The events of a sid. -/
def eventsOf (k : Str) (evs : List Event) : List Event := evs.filter fun ev => ev.key = k

/-- Whether the sid streams after the events, executed one after another. -/
def afterEvents (b : Bool) (evs : List Event) : Bool :=
  evs.foldl (fun _ ev => ev.type = .createProcess) b

/-- Whether the sid streams after the finished events. -/
def Conf.expected (start : Str → Bool) (v : Conf) (k : Str) : Bool :=
  afterEvents (start k) (eventsOf k (v.finished.map (·.ev)))

theorem eventsOf_concat (k : Str) (evs : List Event) (ev : Event) :
    eventsOf k (evs ++ [ev]) = if ev.key = k then eventsOf k evs ++ [ev] else eventsOf k evs := by
  by_cases h : ev.key = k <;> simp [eventsOf, h]

@[simp] theorem afterEvents_concat (b : Bool) (evs : List Event) (ev : Event) :
    afterEvents b (evs ++ [ev]) = decide (ev.type = .createProcess) := by
  simp [afterEvents]

theorem Status.congr {b : Bool} {k : Str} {st st' : Store} (hrecs : recs k st'.coll = recs k st.coll)
    (hlive : st'.os.live k = st.os.live k) (h : Status b k st) : Status b k st' := by
  cases b
  · exact ⟨hrecs.trans h.1, hlive.trans h.2⟩
  · obtain ⟨d, hd, hl⟩ := h
    exact ⟨d, hrecs.trans hd, hlive.trans hl⟩

/-! ### The phases of a start and of a stop -/

/-- The state of the sid while a worker is at a point of the function for an event of it; `b` is whether
the sid was streaming when the worker took the event. -/
def Ctl.Phase (b : Bool) (ev : Event) (st : Store) : Ctl → Prop
  | .spawnQuery _ | .removeQuery _ => Status b ev.key st
  | .spawnFork _ => Gone ev.key st
  | .spawnInsert p => recs ev.key st.coll = [] ∧ st.os.live ev.key = [p.pid]
  | .removeDelete p => ∃ d, recs ev.key st.coll = [d] ∧ d.pid = p.pid ∧ st.os.live ev.key = [p.pid]
  | .removeKill p => recs ev.key st.coll = [] ∧ st.os.live ev.key = [p.pid]
  | .done _ => Status (ev.type = .createProcess) ev.key st
  | _ => False

section

variable {env : Env} {st st' : Store} {c c' : Ctl} {ch : Choice} {b : Bool} {ev : Event} {k : Str}

theorem Ctl.Phase.congr (hrecs : recs ev.key st'.coll = recs ev.key st.coll)
    (hlive : st'.os.live ev.key = st.os.live ev.key) (h : c.Phase b ev st) : c.Phase b ev st' := by
  cases c with
  | spawnQuery | removeQuery | done => exact Status.congr hrecs hlive h
  | spawnFork | spawnInsert | removeKill => exact ⟨hrecs.trans h.1, hlive.trans h.2⟩
  | removeDelete =>
    obtain ⟨d, hd, hp, hl⟩ := h
    exact ⟨d, hrecs.trans hd, hp, hlive.trans hl⟩
  | _ => exact h

theorem phase_start (hty : ev.type = .createProcess ∨ ev.type = .removeProcess)
    (h : Status b ev.key st) : (Ctl.start ev).Phase b ev st := by
  unfold Ctl.start
  rcases hty with hty | hty <;> rw [hty] <;> exact h

/-- **A step of a start or of a stop leads from phase to phase.** -/
theorem CStep.phase (hsid : env.KeepsSids) (h : CStep env st c ch c' st') (hfork : ch ≠ .forkFail)
    (hserves : c.Serves env ev) (hphase : c.Phase b ev st) : c'.Phase b ev st' := by
  cases h with
  | @spawnFound p d hd =>
    obtain ⟨hty, hkey⟩ := hserves
    rw [hkey] at hd
    show Status (ev.type = .createProcess) ev.key st
    rw [hty]
    cases b
    · rw [hphase.1] at hd
      cases hd
    · exact hphase
  | @spawnAbsent p habs =>
    obtain ⟨-, hkey⟩ := hserves
    rw [hkey] at habs
    cases b
    · exact hphase
    · obtain ⟨d, hd, -⟩ := hphase
      rw [habs] at hd
      cases hd
  | spawnForkFailed => exact absurd rfl hfork
  | @spawnForked p x =>
    obtain ⟨-, hkey⟩ := hserves
    obtain ⟨hrecs, hlive⟩ := hphase
    refine ⟨hrecs, ?_⟩
    rw [live_add, if_pos (by simp [Proc.runs, hkey]), hlive]
    rfl
  | @insert p =>
    obtain ⟨hty, hkey⟩ := hserves
    obtain ⟨hrecs, hlive⟩ := hphase
    show Status (ev.type = .createProcess) ev.key _
    rw [hty]
    refine ⟨ServerBiz.processDoc env p, ?_, hlive⟩
    have hsid : (ServerBiz.processDoc env p).sid = ev.key := hkey
    rw [recs_insert, if_pos hsid, hrecs]
    rfl
  | @removeFound p d hd =>
    obtain ⟨-, hkey⟩ := hserves
    rw [hkey] at hd
    cases b
    · rw [hphase.1] at hd
      cases hd
    · obtain ⟨e, he, hlive⟩ := hphase
      rw [he] at hd
      obtain rfl : e = d := Option.some.inj hd
      exact ⟨e, he, rfl, hlive⟩
  | @removeAbsent p habs =>
    obtain ⟨hty, hkey⟩ := hserves
    rw [hkey] at habs
    show Status (ev.type = .createProcess) ev.key st
    rw [hty]
    cases b
    · exact hphase
    · obtain ⟨d, hd, -⟩ := hphase
      rw [habs] at hd
      cases hd
  | @delete p =>
    obtain ⟨d, hd, hp, hlive⟩ := hphase
    refine ⟨?_, hlive⟩
    rw [hsid.key hserves.2, recs_dropRec_self, hd]
    rfl
  | @kill p =>
    obtain ⟨hty, hkey⟩ := hserves
    obtain ⟨hrecs, hlive⟩ := hphase
    show Status (ev.type = .createProcess) ev.key _
    rw [hty]
    refine ⟨hrecs, ?_⟩
    rw [live_drop, hlive]
    simp
  | _ => first | exact hserves.elim | exact hphase.elim

theorem live_disjoint {os : Os} {p : Int} {j : Str} (hnd : (os.procs.map (·.pid)).Nodup)
    (hk : p ∈ os.live k) (hj : j ≠ k) : p ∉ os.live j := by
  intro hpj
  obtain ⟨a, ha, hrun, hpa⟩ := mem_live.mp hk
  obtain ⟨b, hb, hrunb, hpb⟩ := mem_live.mp hpj
  obtain rfl : a = b := List.inj_on_of_nodup_map hnd ha hb (hpa.trans hpb.symm)
  obtain ⟨info, hown, hsid⟩ := runs_iff.mp hrun
  obtain ⟨info', hown', hsid'⟩ := runs_iff.mp hrunb
  rw [hown] at hown'
  exact hj (hsid'.symm.trans (Option.some.inj hown' ▸ hsid))

/-- **What is done for one sid does not show at another.** -/
theorem CStep.frame (hsid : env.KeepsSids) (h : CStep env st c ch c' st') (hserves : c.Serves env ev)
    (hphase : c.Phase b ev st) (hnd : (st.os.procs.map (·.pid)).Nodup) (hk : k ≠ ev.key) :
    recs k st'.coll = recs k st.coll ∧ st'.os.live k = st.os.live k := by
  cases h with
  | @spawnForked p x =>
    have hkey : cStr p.sid = ev.key := hserves.2
    refine ⟨rfl, ?_⟩
    rw [live_add, if_neg]
    simpa [Proc.runs, hkey] using Ne.symm hk
  | @insert p =>
    have hkey : cStr p.sid = ev.key := hserves.2
    refine ⟨?_, rfl⟩
    rw [recs_insert, if_neg]
    exact fun hp => hk (hp.symm.trans hkey)
  | @delete p =>
    exact ⟨recs_dropRec_ne (hsid.key hserves.2 ▸ hk), rfl⟩
  | @kill p =>
    refine ⟨rfl, ?_⟩
    have hmem : p.pid ∈ st.os.live ev.key := by
      rw [hphase.2]
      exact List.mem_singleton_self _
    exact live_drop_of_not_mem (live_disjoint hnd hmem hk)
  | _ => first | exact ⟨rfl, rfl⟩ | exact hserves.elim | exact hphase.elim

theorem CStep.scan (h : CStep env st c ch c' st') (hscan : c.Scans)
    (hfork : ∀ p rest, c ≠ .detectFork p rest) (hupdate : ∀ p rest, c ≠ .detectUpdate p rest) :
    st' = st := by
  cases h with
  | detectForkFailed => rfl
  | detectForked => exact absurd rfl (hfork _ _)
  | detectUpdate => exact absurd rfl (hupdate _ _)
  | _ => first | rfl | exact hscan.elim

end

/-! ### The process table -/

theorem nodup_add {os : Os} {a : Proc} (h : (os.procs.map (·.pid)).Nodup) (ha : os.alive a.pid = false) :
    ((os.add a).procs.map (·.pid)).Nodup := by
  rw [Os.add, List.map_append]
  refine List.nodup_append.mpr ⟨h, List.nodup_singleton _, fun p hp q hq hpq => ?_⟩
  obtain ⟨b, hb, hpb⟩ := List.mem_map.mp hp
  have halive := alive_iff.mpr ⟨b, hb, hpb.trans (hpq.trans (List.mem_singleton.mp hq))⟩
  rw [ha] at halive
  cases halive

theorem nodup_drop {os : Os} {p : Int} (h : (os.procs.map (·.pid)).Nodup) :
    ((os.drop p).procs.map (·.pid)).Nodup :=
  h.sublist (List.filter_sublist.map _)

theorem CStep.table {env : Env} {st st' : Store} {c c' : Ctl} {ch : Choice}
    (h : CStep env st c ch c' st') (hnd : (st.os.procs.map (·.pid)).Nodup) :
    (st'.os.procs.map (·.pid)).Nodup := by
  cases h with
  | spawnForked _ hfree | reloadForked _ hfree | detectForked _ hfree => exact nodup_add hnd hfree
  | kill => exact nodup_drop hnd
  | _ => exact hnd

theorem live_drop_unowned {os : Os} {p : Int} (h : ¬ os.Spawned p) (k : Str) :
    (os.drop p).live k = os.live k :=
  live_drop_of_not_mem fun hp => h (spawned_of_live hp)

/-! ### The invariant -/

structure Streams (env : Env) (start : Str → Bool) (v : Conf) : Prop where
  calm : Calm env v
  table : (v.store.os.procs.map (·.pid)).Nodup
  types : ∀ i, ∀ ev ∈ v.queue i, ev.type = .createProcess ∨ ev.type = .removeProcess
  apart : ∀ i j ev ev', v.event i = some ev → v.event j = some ev' → ev.key = ev'.key → i = j
  idle : ∀ k, (∀ i ev, v.event i = some ev → ev.key ≠ k) → Status (v.expected start k) k v.store
  busy : ∀ i ev c, v.event i = some ev → v.thread (.worker i) = some c →
    c.Phase (v.expected start ev.key) ev v.store

namespace Streams

variable {env : Env} {v v' : Conf} {l : Label} {start : Str → Bool}

theorem frame (h : Streams env start v) (hcalm : Calm env v')
    (hthread : ∀ i, v'.thread (.worker i) = v.thread (.worker i)) (hevent : v'.event = v.event)
    (hfin : v'.finished = v.finished)
    (htypes : ∀ i, ∀ ev ∈ v'.queue i, ev.type = .createProcess ∨ ev.type = .removeProcess)
    (htable : (v'.store.os.procs.map (·.pid)).Nodup)
    (hrecs : ∀ k, recs k v'.store.coll = recs k v.store.coll)
    (hlive : ∀ k, v'.store.os.live k = v.store.os.live k) : Streams env start v' := by
  have hexp : v'.expected start = v.expected start := by
    funext k
    rw [Conf.expected, hfin, Conf.expected]
  refine ⟨hcalm, htable, htypes, hevent ▸ h.apart, fun k hk => ?_, fun i ev c hev hc => ?_⟩
  · rw [hexp]
    exact (h.idle k (hevent ▸ hk)).congr (hrecs k) (hlive k)
  · rw [hexp]
    exact (h.busy i ev c (hevent ▸ hev) ((hthread i).symm.trans hc)).congr (hrecs _) (hlive _)

theorem worker (hsid : env.KeepsSids) (h : Streams env start v) {i : Nat} {ch : Choice} {c c' : Ctl}
    {st' : Store} (ht : v.thread (.worker i) = some c) (hstep : CStep env v.store c ch c' st')
    (hfork : ch ≠ .forkFail)
    (hcalm : Calm env { v with thread := update v.thread (.worker i) (some c'), store := st' }) :
    Streams env start { v with thread := update v.thread (.worker i) (some c'), store := st' } := by
  obtain ⟨ev, hev, hserves⟩ := h.calm.ledgered.fits.worker i c ht
  have hphase := h.busy i ev c hev ht
  have hframe : ∀ k, k ≠ ev.key → _ := fun k hk => hstep.frame hsid hserves hphase h.table hk
  refine ⟨hcalm, hstep.table h.table, h.types, h.apart, fun k hk => ?_, fun j ev' d hev' hd => ?_⟩
  · obtain ⟨hrecs, hlive⟩ := hframe k fun heq => hk i ev hev heq.symm
    exact (h.idle k hk).congr hrecs hlive
  · rcases of_update_some hd with ⟨hj, rfl⟩ | ⟨hj, hd₀⟩
    · cases hj
      obtain rfl : ev = ev' := Option.some.inj (hev.symm.trans hev')
      exact hstep.phase hsid hfork hserves hphase
    · have hne : ev'.key ≠ ev.key := fun heq => hj (congrArg _ (h.apart j i ev' ev hev' hev heq))
      obtain ⟨hrecs, hlive⟩ := hframe _ hne
      exact (h.busy j ev' d hev' hd₀).congr hrecs hlive

theorem front (h : Streams env start v) {i : Nat} {ev : Event} {q : List Event} (hidle : v.event i = none)
    (hq : v.queue i = ev :: q) (hturn : ∀ j ev', v.event j = some ev' → ev'.key ≠ ev.key)
    (hcalm : Calm env { v with
      thread := update v.thread (.worker i) (some (Ctl.start ev)), event := update v.event i (some ev) }) :
    Streams env start { v with
      thread := update v.thread (.worker i) (some (Ctl.start ev))
      event := update v.event i (some ev) } := by
  have hother : ∀ j ev', j ≠ i → v.event j = some ev' →
      update v.event i (some ev) j = some ev' := fun j ev' hj hev' => (update_of_ne hj ..).trans hev'
  refine ⟨hcalm, h.table, h.types, fun j m ev₁ ev₂ h₁ h₂ hkey => ?_, fun k hk => ?_,
    fun j ev' c hev' hc => ?_⟩
  · rcases of_update_some h₁ with ⟨hj, rfl⟩ | ⟨-, h₁₀⟩ <;>
      rcases of_update_some h₂ with ⟨hm, rfl⟩ | ⟨-, h₂₀⟩
    · exact hj.trans hm.symm
    · exact absurd hkey.symm (hturn m _ h₂₀)
    · exact absurd hkey (hturn j _ h₁₀)
    · exact h.apart j m ev₁ ev₂ h₁₀ h₂₀ hkey
  · refine h.idle k fun j ev' hev' => ?_
    have hj : j ≠ i := fun hj => by
      rw [hj, hidle] at hev'
      cases hev'
    exact hk j ev' (hother j ev' hj hev')
  · rcases of_update_some hev' with ⟨hj, rfl⟩ | ⟨hj, hev₀⟩
    · rcases of_update_some hc with ⟨-, rfl⟩ | ⟨hne, -⟩
      · refine phase_start (h.types i _ ?_) (h.idle _ hturn)
        rw [hq]
        exact List.mem_cons_self
      · exact absurd (congrArg _ hj) hne
    · rcases of_update_some hc with ⟨hw, -⟩ | ⟨-, hc₀⟩
      · exact absurd (Tid.worker.inj hw) hj
      · exact h.busy j ev' c hev₀ hc₀

theorem pop (h : Streams env start v) {i : Nat} {ev : Event} {q : List Event} {rtn : Int}
    (hev : v.event i = some ev) (ht : v.thread (.worker i) = some (.done rtn)) (hq : ∃ ev₀, v.queue i = ev₀ :: q)
    (hcalm : Calm env { v with
      thread := update v.thread (.worker i) none, event := update v.event i none,
      queue := update v.queue i q, finished := v.finished ++ [⟨i, ev, rtn⟩] }) :
    Streams env start { v with
      thread := update v.thread (.worker i) none, event := update v.event i none,
      queue := update v.queue i q, finished := v.finished ++ [⟨i, ev, rtn⟩] } := by
  have hdone := h.busy i ev _ hev ht
  have hexp : ∀ k, Conf.expected start { v with
      thread := update v.thread (.worker i) none, event := update v.event i none,
      queue := update v.queue i q, finished := v.finished ++ [⟨i, ev, rtn⟩] } k =
      if ev.key = k then decide (ev.type = .createProcess) else v.expected start k := by
    intro k
    rw [Conf.expected, List.map_append, List.map_singleton, eventsOf_concat]
    split
    · exact afterEvents_concat _ _ _
    · rfl
  refine ⟨hcalm, h.table, fun j ev' hev' => ?_, fun j m ev₁ ev₂ h₁ h₂ hkey => ?_, fun k hk => ?_,
    fun j ev' c hev' hc => ?_⟩
  · replace hev' : ev' ∈ update v.queue i q j := hev'
    refine h.types j ev' ?_
    by_cases hj : j = i
    · subst hj
      obtain ⟨ev₀, hq⟩ := hq
      rw [update_self] at hev'
      rw [hq]
      exact List.mem_cons_of_mem _ hev'
    · rwa [update_of_ne hj] at hev'
  · exact h.apart j m ev₁ ev₂ (of_update_none h₁).2 (of_update_none h₂).2 hkey
  · rw [hexp]
    split
    · rename_i hkey
      subst hkey
      exact hdone
    · rename_i hkey
      refine h.idle k fun j ev' hev' => ?_
      by_cases hj : j = i
      · subst hj
        obtain rfl : ev = ev' := Option.some.inj (hev.symm.trans hev')
        exact hkey
      · exact hk j ev' ((update_of_ne hj ..).trans hev')
  · obtain ⟨hj, hev₀⟩ := of_update_none hev'
    have hne : ev.key ≠ ev'.key := fun heq => hj (h.apart j i ev' ev hev₀ hev heq.symm)
    rw [hexp, if_neg hne]
    exact h.busy j ev' c hev₀ (of_update_none hc).2

/-- **The invariant is kept** when no call fails, forks return fresh pids, nothing crashes, only starts
and stops are put, and a worker takes an event only while no other is busy with its sid. -/
theorem move (hsid : env.KeepsSids) (h : Streams env start v) (hm : Moves env v l v') (hdb : l.dbOk = true)
    (hfork : l.forkOk = true)
    (hfresh : ∀ p, l.claimed = some p → p ∉ v.store.os.used)
    (hdie : ∀ p, l = .die p → ¬ v.store.os.Spawned p)
    (hput : ∀ ev, l = .put ev → ev.type = .createProcess ∨ ev.type = .removeProcess)
    (hturn : ∀ i ev q, l = .front i → v.queue i = ev :: q →
      ∀ j ev', v.event j = some ev' → ev'.key ≠ ev.key) : Streams env start v' := by
  have hcalm := h.calm.move hsid hm hdb hfresh hdie
  cases hm with
  | put hn hlt =>
    rename_i ev n
    refine h.frame hcalm (fun _ => rfl) rfl rfl (fun i ev' hev' => ?_) h.table (fun _ => rfl) fun _ => rfl
    replace hev' : ev' ∈ update v.queue n (v.queue n ++ [ev]) i := hev'
    by_cases hi : i = n
    · subst hi
      rw [update_self] at hev'
      rcases List.mem_append.mp hev' with hev' | hev'
      · exact h.types i ev' hev'
      · rw [List.mem_singleton.mp hev']
        exact hput ev rfl
    · rw [update_of_ne hi] at hev'
      exact h.types i ev' hev'
  | front hidle hq => exact h.front hidle hq (hturn _ _ _ rfl hq) hcalm
  | call ht hc =>
    rename_i τ ch c c' st'
    have hstep := h.calm.ledgered.fits.cstep ht hdb hc
    cases τ with
    | worker i =>
      refine h.worker hsid ht hstep (fun hch => ?_) hcalm
      rw [hch] at hfork
      cases hfork
    | sched =>
      have hthread := h.calm.thread .sched c ht
      have hst : st' = v.store := by
        refine hstep.scan (h.calm.ledgered.fits.sched c ht) (fun p rest hp => ?_) fun p rest hp => ?_
        · subst hp
          exact hthread
        · subst hp
          exact hthread
      subst hst
      exact h.frame hcalm (fun _ => rfl) rfl rfl h.types h.table (fun _ => rfl) fun _ => rfl
  | pop hev ht hq => exact h.pop hev ht ⟨_, hq⟩ hcalm
  | abort => exact h.frame hcalm (fun _ => rfl) rfl rfl h.types h.table (fun _ => rfl) fun _ => rfl
  | detect | detectEnd =>
    exact h.frame hcalm (fun _ => rfl) rfl rfl h.types h.table (fun _ => rfl) fun _ => rfl
  | die =>
    refine h.frame hcalm (fun _ => rfl) rfl rfl h.types (nodup_drop h.table) (fun _ => rfl) fun k => ?_
    exact live_drop_unowned (hdie _ rfl) k
  | appear hp =>
    refine h.frame hcalm (fun _ => rfl) rfl rfl h.types (nodup_add h.table hp) (fun _ => rfl) fun k => ?_
    exact live_add_unowned _ _ k

end Streams

end PullStream
