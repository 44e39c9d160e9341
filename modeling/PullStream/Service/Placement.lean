import PullStream.Control.Hosts
import PullStream.Service.Delivery
import PullStream.Service.Respawn
import Mathlib.Algebra.BigOperators.Group.Finset.Basic
import Mathlib.Data.Fintype.Basic
/-!
# Where a stream lives

A record names the host its stream was started on, but `process_alive_detect` goes by the pid alone: it
asks its own process table about the pids of all hosts, and it looks a dead one up in the records of all
hosts. So a host takes the streams of the others for its own crashed ones (`foreign_stream_respawned`).

When every record that a scheduler's lookup returns names the scheduler's own host, and nothing runs there
for the stream (`Cluster.looksHome`), a stream lives on one host (`Sited`): its processes, at most one, and
the threads that start or respawn it are there, and the record, if there is one, names this host. Starts of
different sids, passes, crashes and failing calls all keep this (`Hosted.step`), hence
`streams_stay_home`.
-/

namespace PullStream

open Function Transition Family

/-! ### Assumptions and the condition -/

section

variable {ι T : Type} [Fintype ι]

/-- Only starts are put. A start is for the host it is put on, and no event of its sid was put before. -/
def Cluster.startsNew (name : ι → Str) (c : Cluster ι T) : ι × Label → Bool
  | (i, .put ev) =>
    decide (ev.type = .createProcess ∧ ev.process.host = name i ∧
      ∀ j, ∀ ev' ∈ (c.host j).accepted, ev'.key ≠ ev.key)
  | _ => true

omit [Fintype ι] in
/-- A record that a lookup by pid returns names the host, where no process of the stream is alive. A query
by sid fails only for a stream without a record. -/
def Cluster.looksHome (I : ι → Threads T) (name : ι → Str) (c : Cluster ι T) : ι × Label → Bool
  | (i, .call τ .ok) =>
    match (c.sys i).next (I i) τ with
    | some (.findOne (.pid p)) =>
      match c.coll.find? (Query.pid p).matches with
      | some d => decide (d.host = cStr (name i) ∧ c.live i d.sid = [])
      | none => true
    | _ => true
  | (i, .call τ .dbFail) =>
    match (c.sys i).next (I i) τ with
    | some (.findOne (.sid k)) => decide (recs k c.coll = [])
    | _ => true
  | _ => true

/-- No scheduler is about to respawn a stream whose recorded process is alive on another host, the one that
the record names. -/
def Cluster.RespawnsOwn (I : ι → Threads T) (name : ι → Str) (c : Cluster ι T) : Prop :=
  ∀ i j param d, (c.sys i).next (I i) .sched = some (.fork param) → d ∈ recs (cStr param.sid) c.coll →
    d.host = cStr (name j) → d.pid ∈ c.live j (cStr param.sid) → i = j

/-- Over all hosts at most one process is alive for each stream. -/
def Cluster.OneEach (c : Cluster ι T) : Prop := ∀ k, ∑ i, (c.live i k).length ≤ 1

end

/-- A stream with a record has its processes, at most one, on the host that the record names, and a stream
without a record has no process. -/
structure Placed {ι : Type} (name : ι → Str) (coll : List Doc) (os : ι → Os) : Prop where
  sids : ∀ d ∈ coll, cStr d.sid = d.sid
  home : ∀ k, ∃ h, (∀ i, i ≠ h → (os i).live k = []) ∧ ((os h).live k).length ≤ 1 ∧
    (recs k coll = [] ∧ (os h).live k = [] ∨ ∃ d, recs k coll = [d] ∧ d.host = cStr (name h))

/-! ### One host -/

/-- The query of `spawn_process`. -/
def Ctl.asks : Ctl → Bool
  | .spawnQuery _ => true
  | _ => false

/-- A point of `spawn_process` that works for the host. -/
def Ctl.Names (s : Str) : Ctl → Prop
  | .spawnQuery p | .spawnFork p | .spawnInsert p => cStr p.host = s
  | _ => True

/-- A start of the sid has got past its query. -/
def Conf.Begun (k : Str) (v : Conf) : Prop :=
  (∃ d ∈ v.finished, d.ev.key = k) ∨
    ∃ w ev t, v.event w = some ev ∧ v.thread (.worker w) = some t ∧ ev.key = k ∧ t.asks = false

/-- What a thread may count on that is starting or respawning a stream. -/
def Ctl.Entitled (records : List Doc) (live : List Int) : Ctl → Prop
  | .spawnFork _ => records = [] ∧ live = []
  | .spawnInsert _ => records = []
  | .detectFork _ _ => records ≠ [] ∧ live = []
  | .detectUpdate _ _ => records ≠ []
  | _ => True

/-- What holds at a host that takes only starts of its own, of different sids. -/
structure Starting (env : Env) (name : Str) (W : Nat) (v : Conf) : Prop where
  fits : v.Fits env
  delivery : Delivery W v
  starts : ∀ ev ∈ v.accepted, ev.type = .createProcess ∧ ev.process.host = name
  names : ∀ τ t, v.thread τ = some t → t.Names (cStr name)
  distinct : (v.accepted.map Event.key).Nodup

section

variable {env : Env} {st st' : Store} {c c' : Ctl} {ch : Choice} {s : Str}

@[simp] theorem Ctl.asks_detectNext (l : List ProcessInfo) : (detectNext l).asks = false := by
  cases l <;> rfl

@[simp] theorem Ctl.target_detectNext (l : List ProcessInfo) : (detectNext l).target = none := by
  cases l <;> rfl

@[simp] theorem Ctl.target_start (ev : Event) : (start ev).target = none := by
  unfold start
  cases ev.type <;> rfl

theorem Ctl.names_detectNext (s : Str) (l : List ProcessInfo) : (detectNext l).Names s := by
  cases l <;> trivial

theorem Acts.failed (hp : c.Parent) (h : Acts env st c .dbFail c' st') :
    st' = st ∧ ((∃ p, c = .spawnQuery p ∧ c' = .spawnFork p) ∨
      c'.target = none ∧ c'.asks = false ∧ ∀ s, c'.Names s) := by
  obtain ⟨hstep, rfl⟩ := h.fstep hp
  refine ⟨rfl, ?_⟩
  cases hstep with
  | spawnQuery => exact .inl ⟨_, rfl, rfl⟩
  | lookup | detectUpdate =>
    exact .inr ⟨Ctl.target_detectNext _, Ctl.asks_detectNext _, fun _ => Ctl.names_detectNext _ _⟩
  | _ => exact .inr ⟨rfl, rfl, fun _ => trivial⟩

theorem CStep.asks (h : CStep env st c ch c' st') : c'.asks = false := by
  cases h with
  | snapshot | probeAlive | lookupAbsent | detectForkFailed | detectUpdate => exact Ctl.asks_detectNext _
  | _ => rfl

theorem CStep.names (h : CStep env st c ch c' st') (hc : c.Names s) : c'.Names s := by
  cases h with
  | spawnAbsent | spawnForked => exact hc
  | snapshot | probeAlive | lookupAbsent | detectForkFailed | detectUpdate => exact Ctl.names_detectNext _ _
  | _ => trivial

theorem Acts.asks (hp : c.Parent) (h : Acts env st c ch c' st') : c'.asks = false := by
  by_cases hdb : ch = .dbFail
  · subst hdb
    obtain ⟨-, ⟨p, -, rfl⟩ | ⟨-, hasks, -⟩⟩ := h.failed hp
    · rfl
    · exact hasks
  · exact (h.cstep hp hdb).asks

theorem Acts.names (hp : c.Parent) (h : Acts env st c ch c' st') (hc : c.Names s) : c'.Names s := by
  by_cases hdb : ch = .dbFail
  · subst hdb
    obtain ⟨-, ⟨p, rfl, rfl⟩ | ⟨-, -, hnames⟩⟩ := h.failed hp
    · exact hc
    · exact hnames s
  · exact (h.cstep hp hdb).names hc

end

theorem Conf.Begun.move {env : Env} {v v' : Conf} {l : Label} {k : Str} (h : v.Begun k) (hfits : v.Fits env)
    (hm : Moves env v l v') : v'.Begun k := by
  rcases h with ⟨d, hd, hkey⟩ | ⟨w, ev, t, hev, ht, hkey, hasks⟩
  · refine .inl ⟨d, ?_, hkey⟩
    cases hm with
    | pop => exact List.mem_append_left _ hd
    | _ => exact hd
  · cases hm with
    | @call τ ch c c' st' hc hacts =>
      by_cases hτ : τ = .worker w
      · subst hτ
        exact .inr ⟨w, ev, c', hev, update_self .., hkey, hacts.asks (hfits.parent hc)⟩
      · exact .inr ⟨w, ev, t, hev, (update_of_ne (Ne.symm hτ) ..).trans ht, hkey, hasks⟩
    | @front i ev' q hidle hq =>
      have hw : w ≠ i := by
        rintro rfl
        rw [hidle] at hev
        cases hev
      have hτ : Tid.worker w ≠ .worker i := fun heq => hw (Tid.worker.inj heq)
      exact .inr ⟨w, ev, t, (update_of_ne hw ..).trans hev, (update_of_ne hτ ..).trans ht, hkey, hasks⟩
    | @pop i ev₀ ev' q rtn hev' ht' hq =>
      by_cases hw : w = i
      · subst hw
        obtain rfl : ev' = ev := Option.some.inj (hev'.symm.trans hev)
        exact .inl ⟨_, List.mem_append_right _ (List.mem_singleton_self _), hkey⟩
      · have hτ : Tid.worker w ≠ .worker i := fun heq => hw (Tid.worker.inj heq)
        exact .inr ⟨w, ev, t, (update_of_ne hw ..).trans hev, (update_of_ne hτ ..).trans ht, hkey, hasks⟩
    | put | abort | detect | detectEnd | die | appear => exact .inr ⟨w, ev, t, hev, ht, hkey, hasks⟩

namespace Starting

variable {env : Env} {v v' : Conf} {l : Label} {name : Str} {W w : Nat} {k : Str} {τ : Tid} {t t' : Ctl}
  {ch : Choice} {st' : Store}

theorem move (h : Starting env name W v) (hm : Moves env v l v')
    (hput : ∀ ev, l = .put ev → ev.type = .createProcess ∧ ev.process.host = name ∧
      ∀ ev' ∈ v.accepted, ev'.key ≠ ev.key) : Starting env name W v' := by
  have hfits := h.fits.move hm
  have hdelivery := h.delivery.move h.fits hm
  cases hm with
  | @put ev n hn hlt =>
    obtain ⟨hty, hhost, hnew⟩ := hput ev rfl
    refine ⟨hfits, hdelivery, fun ev' hev' => ?_, h.names, ?_⟩
    · rcases List.mem_append.mp hev' with hev' | hev'
      · exact h.starts ev' hev'
      · rw [List.mem_singleton.mp hev']
        exact ⟨hty, hhost⟩
    · show ((v.accepted ++ [ev]).map Event.key).Nodup
      rw [List.map_append, List.nodup_append]
      refine ⟨h.distinct, List.nodup_singleton _, fun a ha b hb hab => ?_⟩
      obtain ⟨ev', hev', rfl⟩ := List.mem_map.mp ha
      exact hnew ev' hev' (hab.trans (List.mem_singleton.mp hb))
  | @front i ev q hidle hq =>
    refine ⟨hfits, hdelivery, h.starts, fun σ t ht => ?_, h.distinct⟩
    rcases of_update_some ht with ⟨-, rfl⟩ | ⟨-, ht⟩
    · have hmem : ev ∈ v.queue i := hq ▸ List.mem_cons_self
      obtain ⟨hty, hhost⟩ := h.starts ev (h.delivery.accepted_of_queue hmem)
      unfold Ctl.start
      rw [hty]
      exact congrArg cStr hhost
    · exact h.names σ t ht
  | call hc hacts =>
    refine ⟨hfits, hdelivery, h.starts, fun σ t ht => ?_, h.distinct⟩
    rcases of_update_some ht with ⟨-, rfl⟩ | ⟨-, ht⟩
    · exact hacts.names (h.fits.parent hc) (h.names _ _ hc)
    · exact h.names σ t ht
  | detect =>
    refine ⟨hfits, hdelivery, h.starts, fun σ t ht => ?_, h.distinct⟩
    rcases of_update_some ht with ⟨-, rfl⟩ | ⟨-, ht⟩
    · trivial
    · exact h.names σ t ht
  | pop | detectEnd =>
    exact ⟨hfits, hdelivery, h.starts, fun σ t ht => h.names σ t (of_update_none ht).2, h.distinct⟩
  | abort | die | appear => exact ⟨hfits, hdelivery, h.starts, h.names, h.distinct⟩

theorem store (h : Starting env name W v) (st : Store) : Starting env name W { v with store := st } where
  fits := ⟨h.fits.front, h.fits.worker, h.fits.sched⟩
  delivery := ⟨h.delivery.workers, h.delivery.max, h.delivery.index, h.delivery.done, h.delivery.busy,
    h.delivery.lanes⟩
  starts := h.starts
  names := h.names
  distinct := h.distinct

theorem busy (h : Starting env name W v) (ht : v.thread (.worker w) = some t) :
    ∃ ev, v.event w = some ev ∧ t.Serves env ev ∧ ev ∈ v.queue w ∧ ev ∈ v.accepted ∧
      ev.type = .createProcess := by
  obtain ⟨ev, hev, hserves⟩ := h.fits.worker w t ht
  obtain ⟨q, hq⟩ := h.fits.front w ev hev
  have hmem : ev ∈ v.queue w := hq ▸ List.mem_cons_self
  have hacc := h.delivery.accepted_of_queue hmem
  exact ⟨ev, hev, hserves, hmem, hacc, (h.starts ev hacc).1⟩

theorem target (h : Starting env name W v) (ht : v.thread τ = some t) (hk : t.target = some k) :
    (∃ w ev, τ = .worker w ∧ v.event w = some ev ∧ ev ∈ v.queue w ∧ ev ∈ v.accepted ∧ ev.key = k ∧
      ∃ p, t = .spawnFork p ∨ t = .spawnInsert p) ∨
    τ = .sched ∧ ∃ p rest, t = .detectFork p rest ∨ t = .detectUpdate p rest := by
  cases τ with
  | worker w =>
    obtain ⟨ev, hev, hserves, hmem, hacc, hty⟩ := h.busy ht
    refine .inl ⟨w, ev, rfl, hev, hmem, hacc, ?_⟩
    cases t with
    | spawnFork p => exact ⟨hserves.2.symm.trans (Option.some.inj hk), p, .inl rfl⟩
    | spawnInsert p => exact ⟨hserves.2.symm.trans (Option.some.inj hk), p, .inr rfl⟩
    | removeDelete p | reloadFork p | reloadUpdate p =>
      have hty' := hserves.1
      rw [hty] at hty'
      cases hty'
    | detectFork p rest | detectUpdate p rest => exact hserves.elim
    | _ => cases hk
  | sched =>
    have hscans := h.fits.sched t ht
    refine .inr ⟨rfl, ?_⟩
    cases t with
    | detectFork p rest => exact ⟨p, rest, .inl rfl⟩
    | detectUpdate p rest => exact ⟨p, rest, .inr rfl⟩
    | spawnFork | spawnInsert | removeDelete | reloadFork | reloadUpdate => exact hscans.elim
    | _ => cases hk

theorem accepted_of_begun (h : Starting env name W v) (hbegun : v.Begun k) : ∃ ev ∈ v.accepted, ev.key = k := by
  rcases hbegun with ⟨d, hd, hkey⟩ | ⟨w, ev, t, hev, ht, hkey, -⟩
  · exact ⟨d.ev, h.delivery.accepted_of_finished hd, hkey⟩
  · obtain ⟨ev', hev', -, -, hacc, -⟩ := h.busy ht
    obtain rfl : ev' = ev := Option.some.inj (hev'.symm.trans hev)
    exact ⟨ev', hacc, hkey⟩

theorem not_begun (h : Starting env name W v) (ht : v.thread (.worker w) = some t) (hasks : t.asks = true)
    {ev : Event} (hev : v.event w = some ev) : ¬ v.Begun ev.key := by
  obtain ⟨ev', hev', -, hmem, -⟩ := h.busy ht
  obtain rfl : ev' = ev := Option.some.inj (hev'.symm.trans hev)
  rintro (⟨d, hd, hkey⟩ | ⟨w', ev₂, t', hev₂, ht', hkey, hasks'⟩)
  · exact h.delivery.finished_apart h.distinct hd hmem hkey
  · obtain ⟨ev₃, hev₃, -, hmem', -⟩ := h.busy ht'
    obtain rfl : ev₃ = ev₂ := Option.some.inj (hev₃.symm.trans hev₂)
    obtain rfl := h.delivery.queues_apart h.distinct hmem' hmem hkey
    obtain rfl : t = t' := Option.some.inj (ht.symm.trans ht')
    rw [hasks] at hasks'
    cases hasks'

theorem act (h : Starting env name W v) (ht : v.thread τ = some t) (hk : t.target = some k)
    (hacts : Acts env v.store t ch t' st') (hent : t.Entitled (recs k v.store.coll) (v.store.os.live k))
    (hfew : (v.store.os.live k).length ≤ 1)
    (hrecord : recs k v.store.coll = [] ∨ ∃ d, recs k v.store.coll = [d] ∧ d.host = cStr name) :
    (st'.os.live k).length ≤ 1 ∧
      (recs k st'.coll = [] ∨ ∃ d, recs k st'.coll = [d] ∧ d.host = cStr name) ∧
      (t'.target = some k → t'.Entitled (recs k st'.coll) (st'.os.live k)) ∧
      (recs k st'.coll = [] → ∃ w, τ = .worker w) := by
  have hworker : recs k v.store.coll = [] → ∃ w, τ = .worker w := by
    intro hr
    rcases h.target ht hk with ⟨w, -, hτ, -⟩ | ⟨-, p, rest, rfl | rfl⟩
    · exact ⟨w, hτ⟩
    · exact absurd hr hent.1
    · exact absurd hr hent
  by_cases hdb : ch = .dbFail
  · subst hdb
    obtain ⟨rfl, ⟨p, rfl, -⟩ | ⟨hnone, -⟩⟩ := hacts.failed (h.fits.parent ht)
    · cases hk
    · refine ⟨hfew, hrecord, fun ht' => ?_, hworker⟩
      rw [hnone] at ht'
      cases ht'
  · have hstep := hacts.cstep (h.fits.parent ht) hdb
    have hnames := h.names τ t ht
    rcases h.target ht hk with ⟨w, ev, -, -, -, -, -, p, rfl | rfl⟩ | ⟨-, p, rest, rfl | rfl⟩
    · have hpk : cStr p.sid = k := Option.some.inj hk
      cases hstep with
      | spawnForkFailed =>
        refine ⟨hfew, hrecord, fun ht' => ?_, hworker⟩
        cases ht'
      | @spawnForked _ x =>
        refine ⟨?_, hrecord, fun _ => hent.1, hworker⟩
        rw [live_add, if_pos (by simp [Proc.runs, hpk]), hent.2]
        exact Nat.le_refl 1
    · have hpk : cStr p.sid = k := Option.some.inj hk
      cases hstep with
      | insert =>
        have hrecs : recs k (v.store.coll ++ [ServerBiz.processDoc env p]) = [ServerBiz.processDoc env p] := by
          rw [recs_insert, if_pos (show (ServerBiz.processDoc env p).sid = k from hpk), hent]
          rfl
        refine ⟨hfew, .inr ⟨_, hrecs, hnames⟩, fun ht' => ?_, fun hr => ?_⟩
        · cases ht'
        · rw [hrecs] at hr
          cases hr
    · have hpk : cStr p.sid = k := Option.some.inj hk
      cases hstep with
      | detectForkFailed =>
        exact ⟨hfew, hrecord, fun ht' => absurd ht' (by simp), hworker⟩
      | @detectForked _ _ x =>
        refine ⟨?_, hrecord, fun _ => hent.1, hworker⟩
        rw [live_add, if_pos (by simp [Proc.runs, hpk]), hent.2]
        exact Nat.le_refl 1
    · have hpk : cStr p.sid = k := Option.some.inj hk
      cases hstep with
      | detectUpdate =>
        obtain ⟨d, hd, hhost⟩ := hrecord.resolve_left hent
        have hrecs : recs k (setPid (cStr p.sid) p.pid v.store.coll) = [{ d with pid := p.pid }] := by
          rw [hpk, recs_setPid_self, hd]
          rfl
        refine ⟨hfew, .inr ⟨_, hrecs, hhost⟩, fun ht' => absurd ht' (by simp), fun hr => ?_⟩
        rw [hrecs] at hr
        cases hr

theorem comes (hsid : env.KeepsSids) (h : Starting env name W v) (ht : v.thread τ = some t) (hk : t.target ≠ some k)
    (hk' : t'.target = some k) (hacts : Acts env v.store t ch t' st') :
    st' = v.store ∧
      ((∃ w p, τ = .worker w ∧ t = .spawnQuery p ∧ t' = .spawnFork p ∧ cStr p.sid = k ∧
        (ch = .dbFail ∨ recs k v.store.coll = [])) ∨
      ∃ r rest d, τ = .sched ∧ ch = .ok ∧ t = .detectLookup r rest ∧
        t' = .detectFork (d.seen env.shown) rest ∧
        v.store.coll.find? (Query.pid r.pid).matches = some d ∧ cStr d.sid = k) := by
  by_cases hdb : ch = .dbFail
  · subst hdb
    obtain ⟨rfl, ⟨p, rfl, rfl⟩ | ⟨hnone, -⟩⟩ := hacts.failed (h.fits.parent ht)
    · cases τ with
      | worker w => exact ⟨rfl, .inl ⟨w, p, rfl, rfl, rfl, Option.some.inj hk', .inl rfl⟩⟩
      | sched => exact (h.fits.sched _ ht).elim
    · rw [hnone] at hk'
      cases hk'
  · have hstep := hacts.cstep (h.fits.parent ht) hdb
    cases hstep with
    | @spawnAbsent p habs =>
      cases τ with
      | worker w =>
        have hpk : cStr p.sid = k := Option.some.inj hk'
        exact ⟨rfl, .inl ⟨w, p, rfl, rfl, rfl, hpk, .inr (hpk ▸ habs)⟩⟩
      | sched => exact (h.fits.sched _ ht).elim
    | @lookupFound r rest d hd =>
      cases τ with
      | worker w =>
        obtain ⟨ev, -, hserves, -⟩ := h.busy ht
        exact hserves.elim
      | sched =>
        have hkey : cStr (env.shown "sid" d.sid) = k := Option.some.inj hk'
        rw [hsid] at hkey
        exact ⟨rfl, .inr ⟨r, rest, d, rfl, rfl, rfl, rfl, hd, hkey⟩⟩
    | removeFound | reloadFound =>
      cases τ with
      | worker w =>
        obtain ⟨ev, -, hserves, -, -, hty⟩ := h.busy ht
        rw [hserves.1] at hty
        cases hty
      | sched => exact (h.fits.sched _ ht).elim
    | spawnForked | detectForked | reloadForked => exact absurd hk' hk
    | snapshot | probeAlive | lookupAbsent | detectForkFailed | detectUpdate =>
      rw [Ctl.target_detectNext] at hk'
      cases hk'
    | _ => cases hk'

end Starting

/-! ### One stream on all hosts -/

variable {ι : Type} {name : ι → Str} {W : ι → Nat} {c : Cluster ι Ctl} {s : Sys Ctl}
  {a i : ι} {k : Str} {env : ι → Env} {l : Label}

/-- The stream lives on host `a`. -/
structure Sited (name : ι → Str) (k : Str) (c : Cluster ι Ctl) (a : ι) : Prop where
  others : ∀ i, i ≠ a → c.live i k = []
  few : (c.live a k).length ≤ 1
  record : recs k c.coll = [] ∨ ∃ d, recs k c.coll = [d] ∧ d.host = cStr (name a)
  thread : ∀ i τ t, (c.conf i).thread τ = some t → t.target = some k →
    i = a ∧ t.Entitled (recs k c.coll) (c.live a k)
  begun : recs k c.coll = [] → c.live a k ≠ [] → ∃ i, (c.conf i).Begun k

structure Hosted (env : ι → Env) (name : ι → Str) (W : ι → Nat) (c : Cluster ι Ctl) : Prop where
  starting : ∀ i, Starting (env i) (name i) (W i) (c.conf i)
  apart : ∀ i j, i ≠ j → ∀ ev ∈ (c.conf i).accepted, ∀ ev' ∈ (c.conf j).accepted, ev.key ≠ ev'.key
  sids : ∀ d ∈ c.coll, cStr d.sid = d.sid
  sited : ∀ k, ∃ a, Sited name k c a

namespace Sited

variable [DecidableEq ι]

theorem frame (h : Sited name k c a) (hfits : (c.conf i).Fits (env i)) (hm : Moves (env i) (c.conf i) l s.conf)
    (hrecs : recs k s.coll = recs k c.coll) (hlive : (s.os.live k).Sublist (c.live i k))
    (hthread : ∀ τ t, s.conf.thread τ = some t → t.target = some k → (c.conf i).thread τ = some t) :
    Sited name k (c.set i s) a := by
  have hsub : ∀ j, ((c.set i s).live j k).Sublist (c.live j k) := by
    intro j
    by_cases hj : j = i
    · subst hj
      rw [Cluster.live_set_self]
      exact hlive
    · rw [Cluster.live_set_ne c hj]
  have hold : ∀ j τ t, ((c.set i s).conf j).thread τ = some t → t.target = some k →
      (c.conf j).thread τ = some t := by
    intro j τ t ht hk
    by_cases hj : j = i
    · subst hj
      rw [Cluster.conf_set_self] at ht
      exact hthread τ t ht hk
    · rw [Cluster.conf_set_ne hj] at ht
      exact ht
  refine ⟨fun j hj => ?_, (hsub a).length_le.trans h.few, ?_, fun j τ t ht hk => ?_, fun hr hl => ?_⟩
  · exact List.sublist_nil.mp (h.others j hj ▸ hsub j)
  · show recs k s.coll = [] ∨ _
    rw [show recs k (c.set i s).coll = recs k c.coll from hrecs, hrecs]
    exact h.record
  · obtain ⟨hja, hent⟩ := h.thread j τ t (hold j τ t ht hk) hk
    refine ⟨hja, ?_⟩
    have hnil : c.live a k = [] → (c.set i s).live a k = [] := fun hn => List.sublist_nil.mp (hn ▸ hsub a)
    rw [show recs k (c.set i s).coll = recs k c.coll from hrecs]
    cases t with
    | spawnFork | detectFork => exact ⟨hent.1, hnil hent.2⟩
    | spawnInsert | detectUpdate => exact hent
    | _ => trivial
  · have hne : c.live a k ≠ [] := fun hn => hl (List.sublist_nil.mp (hn ▸ hsub a))
    obtain ⟨j, hbegun⟩ := h.begun (hrecs.symm.trans hr) hne
    refine ⟨j, ?_⟩
    by_cases hj : j = i
    · subst hj
      rw [Cluster.conf_set_self]
      exact hbegun.move hfits hm
    · rw [Cluster.conf_set_ne hj]
      exact hbegun

theorem act (h : Sited name k c i) {τ : Tid} {t' : Ctl}
    (halone : ∀ j σ u, (c.conf j).thread σ = some u → u.target = some k → j = i ∧ σ = τ)
    (hthread : s.conf.thread = update (c.conf i).thread τ (some t')) (hfew : (s.os.live k).length ≤ 1)
    (hrecord : recs k s.coll = [] ∨ ∃ d, recs k s.coll = [d] ∧ d.host = cStr (name i))
    (hentitled : t'.target = some k → t'.Entitled (recs k s.coll) (s.os.live k))
    (hbegun : recs k s.coll = [] → s.os.live k ≠ [] → s.conf.Begun k) : Sited name k (c.set i s) i := by
  have hlive := Cluster.live_set_self c i s k
  refine ⟨fun j hj => ?_, hlive ▸ hfew, hrecord, fun j σ u hu hk => ?_, fun hr hl => ⟨i, ?_⟩⟩
  · rw [Cluster.live_set_ne c hj]
    exact h.others j hj
  · by_cases hj : j = i
    · subst hj
      rw [Cluster.conf_set_self, hthread] at hu
      rcases of_update_some hu with ⟨-, rfl⟩ | ⟨hσ, hu⟩
      · exact ⟨rfl, hlive ▸ hentitled hk⟩
      · exact absurd (halone j σ u hu hk).2 hσ
    · rw [Cluster.conf_set_ne hj] at hu
      exact absurd (halone j σ u hu hk).1 hj
  · rw [Cluster.conf_set_self]
    exact hbegun hr (hlive ▸ hl)

end Sited

theorem Moves.mem_accepted {v v' : Conf} (h : Moves (env i) v l v') {ev : Event} (hev : ev ∈ v'.accepted) :
    ev ∈ v.accepted ∨ l = .put ev := by
  cases h with
  | put => exact (List.mem_append.mp hev).imp id fun hev => congrArg _ (List.mem_singleton.mp hev).symm
  | _ => exact .inl hev

namespace Hosted

theorem one (h : Hosted env name W c) (hsited : Sited name k c a) {i j : ι} {σ τ : Tid} {t u : Ctl}
    (hu : (c.conf j).thread σ = some u) (hk' : u.target = some k) (ht : (c.conf i).thread τ = some t)
    (hk : t.target = some k) : j = i ∧ σ = τ := by
  obtain ⟨rfl, hent⟩ := hsited.thread i τ t ht hk
  obtain ⟨rfl, hent'⟩ := hsited.thread j σ u hu hk'
  refine ⟨rfl, ?_⟩
  rcases (h.starting j).target ht hk with ⟨w, ev, rfl, -, hmem, -, hkey, p, hp⟩ | ⟨rfl, p, rest, hp⟩ <;>
    rcases (h.starting j).target hu hk' with ⟨w', ev', rfl, -, hmem', -, hkey', p', hp'⟩ |
      ⟨rfl, p', rest', hp'⟩
  · have hw := (h.starting j).delivery.queues_apart (h.starting j).distinct hmem' hmem
      (hkey'.trans hkey.symm)
    rw [hw]
  · have hnil : recs k c.coll = [] := by
      rcases hp with rfl | rfl
      · exact hent.1
      · exact hent
    rcases hp' with rfl | rfl
    · exact absurd hnil hent'.1
    · exact absurd hnil hent'
  · have hnil : recs k c.coll = [] := by
      rcases hp' with rfl | rfl
      · exact hent'.1
      · exact hent'
    rcases hp with rfl | rfl
    · exact absurd hnil hent.1
    · exact absurd hnil hent
  · rfl

theorem absent (h : Hosted env name W c) (hsited : Sited name k c a) {w : Nat} {p : ProcessInfo}
    (ht : (c.conf i).thread (.worker w) = some (.spawnQuery p)) (hpk : cStr p.sid = k)
    (hrecs : recs k c.coll = []) :
    (∀ j, c.live j k = []) ∧ ∀ j σ u, (c.conf j).thread σ = some u → u.target ≠ some k := by
  obtain ⟨ev, hev, hserves, hmem, hacc, -⟩ := (h.starting i).busy ht
  have hkey : ev.key = k := hserves.2.symm.trans hpk
  have hfirst : ∀ j, ∀ ev' ∈ (c.conf j).accepted, ev'.key = k → j = i := by
    intro j ev' hev' hkey'
    by_contra hj
    exact h.apart j i hj ev' hev' ev hacc (hkey'.trans hkey.symm)
  refine ⟨fun j => ?_, fun j σ u hu hk => ?_⟩
  · by_cases hj : j = a
    · subst hj
      by_contra hne
      obtain ⟨j', hbegun⟩ := hsited.begun hrecs hne
      obtain ⟨ev', hev', hkey'⟩ := (h.starting j').accepted_of_begun hbegun
      obtain rfl := hfirst j' ev' hev' hkey'
      exact (h.starting j').not_begun ht rfl hev (hkey.symm ▸ hbegun)
    · exact hsited.others j hj
  · obtain ⟨rfl, hent⟩ := hsited.thread j σ u hu hk
    rcases (h.starting j).target hu hk with ⟨w', ev', rfl, -, hmem', hacc', hkey', -⟩ | ⟨-, p', rest', rfl | rfl⟩
    · obtain rfl := hfirst j ev' hacc' hkey'
      obtain rfl := (h.starting j).delivery.queues_apart (h.starting j).distinct hmem hmem'
        (hkey.trans hkey'.symm)
      rw [ht] at hu
      cases hu
      cases hk
    · exact hent.1 hrecs
    · exact hent hrecs

variable [DecidableEq ι]

section

variable {τ : Tid} {ch : Choice} {t t' : Ctl} {st' : Store}

theorem call_own (h : Hosted env name W c) (hsited : Sited name k c a) (ht : (c.conf i).thread τ = some t)
    (hacts : Acts (env i) (c.conf i).store t ch t' st')
    (hs : s.conf = { c.conf i with thread := update (c.conf i).thread τ (some t'), store := st' })
    (hk : t.target = some k) : Sited name k (c.set i s) i := by
  have hstore : s.store = st' := congrArg Conf.store hs
  have hcoll : s.coll = st'.coll := congrArg Store.coll hstore
  have hos : s.os = st'.os := congrArg Store.os hstore
  have hthread : s.conf.thread = update (c.conf i).thread τ (some t') := congrArg Conf.thread hs
  obtain ⟨rfl, hent⟩ := hsited.thread i τ t ht hk
  obtain ⟨hfew, hrecord, hent', hworker⟩ := (h.starting i).act ht hk hacts hent hsited.few hsited.record
  rw [← hcoll] at hrecord hent' hworker
  rw [← hos] at hfew hent'
  refine hsited.act (fun j σ u hu hk' => h.one hsited hu hk' ht hk) hthread hfew hrecord hent' ?_
  intro hr _
  obtain ⟨w, rfl⟩ := hworker hr
  obtain ⟨ev, hev, hserves, -⟩ := (h.starting i).busy ht
  rcases (h.starting i).target ht hk with ⟨w', ev', hw, hev', -, -, hkey, -⟩ | ⟨hτ, -⟩
  · cases hw
    refine .inr ⟨w, ev', t', ?_, ?_, hkey, hacts.asks ((h.starting i).fits.parent ht)⟩
    · exact (congrFun (congrArg Conf.event hs) w).trans hev'
    · rw [hthread, update_self]
  · cases hτ

theorem call_start (h : Hosted env name W c) (hsited : Sited name k c a) {w : Nat} {p : ProcessInfo}
    (ht : (c.conf i).thread (.worker w) = some (.spawnQuery p)) (hpk : cStr p.sid = k) (hrecs : recs k c.coll = [])
    (hs : s.conf = { c.conf i with thread := update (c.conf i).thread (.worker w) (some (.spawnFork p)) }) :
    Sited name k (c.set i s) i := by
  have hcoll : s.coll = c.coll := congrArg (fun v => v.store.coll) hs
  have hos : s.os = (c.conf i).store.os := congrArg (fun v => v.store.os) hs
  obtain ⟨hnone, hfree⟩ := h.absent hsited ht hpk hrecs
  have hhere : Sited name k c i :=
    ⟨fun j _ => hnone j, by rw [hnone i]; exact Nat.zero_le 1, .inl hrecs,
      fun j σ u hu hk => absurd hk (hfree j σ u hu), fun _ hl => absurd (hnone i) hl⟩
  have hlive : s.os.live k = [] := hos ▸ hnone i
  have hrecs' : recs k s.coll = [] := hcoll ▸ hrecs
  refine hhere.act (fun j σ u hu hk => absurd hk (hfree j σ u hu)) (congrArg Conf.thread hs) ?_ (.inl hrecs')
    (fun _ => ⟨hrecs', hlive⟩) fun _ hl => absurd hlive hl
  rw [hlive]
  exact Nat.zero_le 1

theorem call_respawn (h : Hosted env name W c) (hname : Injective fun i => cStr (name i)) (hsited : Sited name k c a)
    {r : ProcessInfo} {d : Doc} {rest : List ProcessInfo}
    (ht : (c.conf i).thread .sched = some (.detectLookup r rest)) (hmem : d ∈ c.coll) (hsid : d.sid = k)
    (hhost : d.host = cStr (name i)) (hnone : c.live i d.sid = [])
    (hs : s.conf = { c.conf i with
      thread := update (c.conf i).thread .sched (some (.detectFork (d.seen (env i).shown) rest)) }) :
    Sited name k (c.set i s) i := by
  have hcoll : s.coll = c.coll := congrArg (fun v => v.store.coll) hs
  have hos : s.os = (c.conf i).store.os := congrArg (fun v => v.store.os) hs
  have hrec : d ∈ recs k c.coll := mem_recs.mpr ⟨hmem, hsid⟩
  have hne : recs k c.coll ≠ [] := List.ne_nil_of_mem hrec
  obtain ⟨e, he, hhost'⟩ := hsited.record.resolve_left hne
  rw [he] at hrec
  obtain rfl := List.mem_singleton.mp hrec
  obtain rfl : i = a := hname (hhost.symm.trans hhost')
  have hfree : ∀ j σ u, (c.conf j).thread σ = some u → u.target ≠ some k := by
    intro j σ u hu hk
    obtain ⟨rfl, hent⟩ := hsited.thread j σ u hu hk
    rcases (h.starting j).target hu hk with ⟨-, -, -, -, -, -, -, p', rfl | rfl⟩ | ⟨rfl, -⟩
    · exact hne hent.1
    · exact hne hent
    · rw [ht] at hu
      cases hu
      cases hk
  have hlive : s.os.live k = [] := by
    rw [hos, ← hsid]
    exact hnone
  have hne' : recs k s.coll ≠ [] := hcoll ▸ hne
  refine hsited.act (fun j σ u hu hk => absurd hk (hfree j σ u hu)) (congrArg Conf.thread hs) ?_
    (.inr ⟨d, ?_, hhost'⟩) (fun _ => ⟨hne', hlive⟩) fun hr => absurd hr hne'
  · rw [hlive]
    exact Nat.zero_le 1
  · rw [hcoll]
    exact he

theorem call_other (h : Hosted env name W c) (hsited : Sited name k c a) (ht : (c.conf i).thread τ = some t)
    (hacts : Acts (env i) (c.conf i).store t ch t' st')
    (hs : s.conf = { c.conf i with thread := update (c.conf i).thread τ (some t'), store := st' })
    (hk : t.target ≠ some k) (hk' : t'.target ≠ some k) : Sited name k (c.set i s) a := by
  have hm : Moves (env i) (c.conf i) (.call τ ch) s.conf := hs ▸ .call ht hacts
  have hcoll : s.coll = st'.coll := congrArg (fun v => v.store.coll) hs
  have hos : s.os = st'.os := congrArg (fun v => v.store.os) hs
  have hfits := (h.starting i).fits
  have hkeep : recs k st'.coll = recs k c.coll ∧ (st'.os.live k).Sublist (c.live i k) := by
    by_cases hdb : ch = .dbFail
    · subst hdb
      obtain ⟨rfl, -⟩ := hacts.failed (hfits.parent ht)
      exact ⟨rfl, List.Sublist.refl _⟩
    · obtain ⟨hrecs, hlive | ⟨p, -, hlive⟩⟩ := (hacts.cstep (hfits.parent ht) hdb).other hk
      · exact ⟨hrecs, hlive ▸ List.Sublist.refl _⟩
      · exact ⟨hrecs, hlive ▸ List.filter_sublist⟩
  refine hsited.frame hfits hm (hcoll ▸ hkeep.1) (hos ▸ hkeep.2) fun σ u hu hu' => ?_
  rw [congrArg Conf.thread hs] at hu
  rcases of_update_some hu with ⟨-, rfl⟩ | ⟨-, hu⟩
  · exact absurd hu' hk'
  · exact hu

/-- **A call keeps a stream on one host.** -/
theorem call (hsid : ∀ i, (env i).KeepsSids) (h : Hosted env name W c) (hname : Injective fun i => cStr (name i))
    (hsited : Sited name k c a)
    (ht : (c.conf i).thread τ = some t) (hacts : Acts (env i) (c.conf i).store t ch t' st')
    (hs : s.conf = { c.conf i with thread := update (c.conf i).thread τ (some t'), store := st' })
    (hlooks : ∀ r rest d, ch = .ok → t = .detectLookup r rest →
      c.coll.find? (Query.pid r.pid).matches = some d → d.host = cStr (name i) ∧ c.live i d.sid = [])
    (hfails : ∀ p, ch = .dbFail → t = .spawnQuery p → recs (cStr p.sid) c.coll = []) :
    ∃ a, Sited name k (c.set i s) a := by
  by_cases hk : t.target = some k
  · exact ⟨i, h.call_own hsited ht hacts hs hk⟩
  · by_cases hk' : t'.target = some k
    · obtain ⟨rfl, ⟨w, p, rfl, rfl, rfl, hpk, hquery⟩ | ⟨r, rest, d, rfl, rfl, rfl, rfl, hd, hdk⟩⟩ :=
        (h.starting i).comes (hsid i) ht hk hk' hacts
      · have hrecs : recs k c.coll = [] := by
          rcases hquery with hch | hrecs
          · exact hpk ▸ hfails p hch rfl
          · exact hrecs
        exact ⟨i, h.call_start hsited ht hpk hrecs hs⟩
      · obtain ⟨hmem, -⟩ := of_find?_pid hd
        obtain ⟨hhost, hnone⟩ := hlooks r rest d rfl rfl hd
        exact ⟨i, h.call_respawn hname hsited ht hmem ((h.sids d hmem).symm.trans hdk) hhost hnone hs⟩
    · exact ⟨a, h.call_other hsited ht hacts hs hk hk'⟩

end

/-- **A step of a host keeps every stream on one host.** -/
theorem move (hsid : ∀ i, (env i).KeepsSids) (h : Hosted env name W c) (hname : Injective fun i => cStr (name i))
    (hm : Moves (env i) (c.conf i) l s.conf)
    (hput : ∀ ev, l = .put ev → ev.type = .createProcess ∧ ev.process.host = name i ∧
      ∀ j, ∀ ev' ∈ (c.conf j).accepted, ev'.key ≠ ev.key)
    (hlooks : ∀ τ r rest d, l = .call τ .ok → (c.conf i).thread τ = some (.detectLookup r rest) →
      c.coll.find? (Query.pid r.pid).matches = some d → d.host = cStr (name i) ∧ c.live i d.sid = [])
    (hfails : ∀ τ p, l = .call τ .dbFail → (c.conf i).thread τ = some (.spawnQuery p) →
      recs (cStr p.sid) c.coll = []) : Hosted env name W (c.set i s) := by
  have hfits := (h.starting i).fits
  have hself := Cluster.conf_set_self c i s
  refine ⟨fun j => ?_, fun j j' hj ev hev ev' hev' => ?_, fun d hd => ?_, fun k => ?_⟩
  · by_cases hj : j = i
    · subst hj
      rw [hself]
      refine (h.starting j).move hm fun ev hl => ?_
      obtain ⟨hty, hhost, hnew⟩ := hput ev hl
      exact ⟨hty, hhost, hnew j⟩
    · rw [Cluster.conf_set_ne hj]
      exact (h.starting j).store _
  · have hold : ∀ j, ∀ ev ∈ ((c.set i s).conf j).accepted,
        ev ∈ (c.conf j).accepted ∨ j = i ∧ l = .put ev := by
      intro j ev hev
      by_cases hj : j = i
      · subst hj
        rw [hself] at hev
        exact (hm.mem_accepted hev).imp id fun hl => ⟨rfl, hl⟩
      · rw [Cluster.conf_set_ne hj] at hev
        exact .inl hev
    rcases hold j ev hev with hacc | ⟨rfl, hl⟩ <;> rcases hold j' ev' hev' with hacc' | ⟨rfl, hl'⟩
    · exact h.apart j j' hj ev hacc ev' hacc'
    · exact (hput ev' hl').2.2 j ev hacc
    · exact ((hput ev hl).2.2 j' ev' hacc').symm
    · exact absurd rfl hj
  · generalize hv : s.conf = v' at hm
    have hcoll : s.coll = v'.store.coll := congrArg (fun v => v.store.coll) hv
    replace hd : d ∈ s.coll := hd
    rw [hcoll] at hd
    cases hm with
    | @call τ ch t t' st' ht hacts =>
      by_cases hdb : ch = .dbFail
      · subst hdb
        obtain ⟨rfl, -⟩ := hacts.failed (hfits.parent ht)
        exact h.sids d hd
      · exact (hacts.cstep (hfits.parent ht) hdb).sids h.sids d hd
    | _ => exact h.sids d hd
  · obtain ⟨a, hsited⟩ := h.sited k
    have hm' := hm
    generalize hv : s.conf = v' at hm'
    have hcoll : s.coll = v'.store.coll := congrArg (fun v => v.store.coll) hv
    have hos : s.os = v'.store.os := congrArg (fun v => v.store.os) hv
    have hthread : s.conf.thread = v'.thread := congrArg Conf.thread hv
    cases hm' with
    | call ht hacts =>
      refine h.call hsid hname hsited ht hacts hv (fun r rest d hch hr hd => ?_) fun p hch hp => ?_
      · exact hlooks _ r rest d (congrArg _ hch) (hr ▸ ht) hd
      · exact hfails _ p (congrArg _ hch) (hp ▸ ht)
    | put | abort =>
      exact ⟨a, hsited.frame hfits hm (hcoll ▸ rfl) (hos ▸ List.Sublist.refl _) fun τ t ht _ => hthread ▸ ht⟩
    | appear =>
      refine ⟨a, hsited.frame hfits hm (hcoll ▸ rfl) ?_ fun τ t ht _ => hthread ▸ ht⟩
      rw [hos, live_add_unowned]
      exact List.Sublist.refl _
    | die =>
      refine ⟨a, hsited.frame hfits hm (hcoll ▸ rfl) ?_ fun τ t ht _ => hthread ▸ ht⟩
      rw [hos, live_drop]
      exact List.filter_sublist
    | front | detect =>
      refine ⟨a, hsited.frame hfits hm (hcoll ▸ rfl) (hos ▸ List.Sublist.refl _) fun τ t ht hk => ?_⟩
      rw [hthread] at ht
      rcases of_update_some ht with ⟨-, rfl⟩ | ⟨-, ht⟩
      · first
          | exact absurd hk (by simp)
          | cases hk
      · exact ht
    | pop | detectEnd =>
      refine ⟨a, hsited.frame hfits hm (hcoll ▸ rfl) (hos ▸ List.Sublist.refl _) fun τ t ht _ => ?_⟩
      rw [hthread] at ht
      exact (of_update_none ht).2

end Hosted

theorem hosted_boot {coll : List Doc} {os : ι → Os} (h : Placed name coll os) :
    Hosted env name W (Cluster.boot (fun i => W i) coll os) := by
  have hidle : ∀ i τ t, ((Cluster.boot (fun i => (W i : Int)) coll os : Cluster ι Ctl).conf i).thread τ ≠ some t := by
    intro i τ t ht
    exact absurd ((thread_boot (W i) coll (os i) τ).symm.trans ht) nofun
  refine ⟨fun i => ?_, nofun, h.sids, fun k => ?_⟩
  · exact ⟨fits_boot (env i) _ coll (os i), delivery_boot _ coll (os i), nofun, fun τ t ht => absurd ht (hidle i τ t),
      List.nodup_nil⟩
  · obtain ⟨a, hothers, hfew, hrecord⟩ := h.home k
    refine ⟨a, hothers, hfew, ?_, fun i τ t ht => absurd ht (hidle i τ t), fun hr hl => ?_⟩
    · exact hrecord.imp And.left id
    · rcases hrecord with ⟨-, hnone⟩ | ⟨d, hd, -⟩
      · exact absurd hnone hl
      · rw [show recs k coll = [] from hr] at hd
        cases hd

/-! ### Runs -/

theorem looksHome_map (c : Cluster ι Ctl) (l : ι × Label) :
    (c.map fun i => Ctl.code (env i)).looksHome (fun i => service (env i)) name l =
      c.looksHome (fun i => points (env i)) name l := by
  have hnext : ∀ i τ, ((c.sys i).map (Ctl.code (env i))).next (service (env i)) τ =
      (c.sys i).next (points (env i)) τ := fun i τ => Sys.next_map (points_hom (env i)).view (c.sys i) τ
  obtain ⟨i, l⟩ := l
  cases l with
  | call τ ch =>
    cases ch with
    | ok | dbFail =>
      simp only [Cluster.looksHome, Cluster.map_sys, hnext]
      rfl
    | _ => rfl
  | _ => rfl

theorem home_of_looksHome (h : c.looksHome (fun i => points (env i)) name (i, l) = true)
    {τ : Tid} {r d : ProcessInfo} {rest : List ProcessInfo} (hl : l = .call τ .ok)
    (ht : (c.conf i).thread τ = some (.detectLookup r rest))
    (hd : c.coll.find? (Query.pid r.pid).matches = some d) :
    d.host = cStr (name i) ∧ c.live i d.sid = [] := by
  subst hl
  have hnext : (c.sys i).next (points (env i)) τ = some (.findOne (.pid r.pid)) :=
    (congrArg (Option.bind · _) ht).trans rfl
  simp only [Cluster.looksHome, hnext, hd, decide_eq_true_eq] at h
  exact h

theorem absent_of_looksHome (h : c.looksHome (fun i => points (env i)) name (i, l) = true)
    {τ : Tid} {p : ProcessInfo} (hl : l = .call τ .dbFail)
    (ht : (c.conf i).thread τ = some (.spawnQuery p)) : recs (cStr p.sid) c.coll = [] := by
  subst hl
  have hnext : (c.sys i).next (points (env i)) τ = some (.findOne (.sid (cStr p.sid))) :=
    (congrArg (Option.bind · _) ht).trans rfl
  simp only [Cluster.looksHome, hnext, decide_eq_true_eq] at h
  exact h

theorem Hosted.respawnsOwn (h : Hosted env name W c) :
    c.RespawnsOwn (fun i => points (env i)) name := by
  intro i j param d hnext hd hhost hlive
  obtain ⟨t, ht, hcall⟩ := Option.bind_eq_some_iff.mp hnext
  have hscans := (h.starting i).fits.sched t ht
  cases t with
  | detectFork p rest =>
    obtain rfl : p = param := Call.fork.inj (Option.some.inj hcall)
    obtain ⟨a, hsited⟩ := h.sited (cStr p.sid)
    obtain ⟨rfl, -, hnone⟩ := hsited.thread i .sched _ ht rfl
    by_contra hij
    rw [hsited.others j (Ne.symm hij)] at hlive
    exact List.not_mem_nil hlive
  | spawnFork | reloadFork => exact hscans.elim
  | _ => cases hcall

theorem Hosted.oneEach [Fintype ι] (h : Hosted env name W c) : c.OneEach := by
  intro k
  obtain ⟨a, hsited⟩ := h.sited k
  rw [Finset.sum_eq_single a]
  · exact hsited.few
  · intro i _ hi
    rw [hsited.others i hi]
    rfl
  · exact fun ha => absurd (Finset.mem_univ a) ha

theorem stay_home_of_keepsSids [Fintype ι] [DecidableEq ι] {coll : List Doc} {os : ι → Os}
    {ls : List (ι × Label)} {c : Cluster ι (Act Int)} (hsid : ∀ i, (env i).KeepsSids)
    (hname : Injective fun i => cStr (name i)) (hplaced : Placed name coll os)
    (h : Runs (clusterStep fun i => service (env i))
      (fun c l => c.startsNew name l = true ∧ c.looksHome (fun i => service (env i)) name l = true)
      (Cluster.boot (fun i => W i) coll os) ls c) :
    c.RespawnsOwn (fun i => service (env i)) name ∧ c.OneEach := by
  rw [← Cluster.map_boot fun i => Ctl.code (env i)] at h
  obtain ⟨b, rfl, hrun⟩ := runs_cluster_points h
  have hosted : Hosted env name W b := by
    refine hrun.inv (Hosted env name W) (hosted_boot hplaced) ?_
    rintro t ⟨i, l⟩ u hinv ⟨hnew, hhome⟩ hstep
    rw [looksHome_map] at hhome
    obtain ⟨s, hs, rfl⟩ := clusterStep_some hstep
    refine hinv.move hsid hname (moves_of_step hs) ?_ (fun τ r rest d hl ht hd => home_of_looksHome hhome hl ht hd)
      fun τ p hl ht => absent_of_looksHome hhome hl ht
    rintro ev rfl
    exact of_decide_eq_true hnew
  refine ⟨fun i j param d hnext => ?_, hosted.oneEach⟩
  rw [Cluster.map_sys, Sys.next_map (points_hom (env i)).view] at hnext
  exact hosted.respawnsOwn i j param d hnext

/-- **Hosts leave each other's streams alone, and a stream has at most one process over all hosts**, when
every record that a scheduler's lookup returns is of a stream of its own host with no process there, no
query of a start fails for a stream that has a record, and sids come back. -/
theorem streams_stay_home [Fintype ι] [DecidableEq ι] {coll : List Doc} {os : ι → Os}
    {ls : List (ι × Label)} {c : Cluster ι (Act Int)} (hname : Injective fun i => cStr (name i))
    (hplaced : Placed name coll os) (hintact : ∀ i, ∀ d ∈ coll, d.intact (env i) ["sid"] = true)
    (h : Runs (clusterStep fun i => service (env i))
      (fun c l => c.startsNew name l = true ∧ c.looksHome (fun i => service (env i)) name l = true ∧
        ∀ i, l.2.intact (env i) ["sid"] = true) (Cluster.boot (fun i => W i) coll os) ls c) :
    c.RespawnsOwn (fun i => service (env i)) name ∧ c.OneEach := by
  have hrun := runs_cluster_keep hintact (fun _ _ hok => hok.2.2) h
  have hstay : c.RespawnsOwn (fun i => service ((env i).keep ["sid"])) name ∧ c.OneEach :=
    stay_home_of_keepsSids (fun i => keep_sids (env i)) hname hplaced
      (hrun.mono fun _ _ hok => ⟨hok.1, hok.2.1⟩)
  exact hstay

/-! ### Two hosts -/

def twoNames (i : Fin 2) : Str := if i = 0 then lit "a" else lit "b"

/-- A start of a stream on host `i`. -/
def startAt (i : Fin 2) (sid : Str) : Event := ⟨{ sampleInfo sid with host := twoNames i }, .createProcess⟩

def twoHosts : Cluster (Fin 2) (Act Int) := Cluster.boot (fun _ => (1 : Nat)) [] fun _ => ⟨[], []⟩

theorem twoHosts_placed : Placed twoNames [] fun _ => ⟨[], []⟩ :=
  ⟨nofun, fun _ => ⟨0, fun _ _ => rfl, Nat.zero_le 1, .inl ⟨rfl, rfl⟩⟩⟩

/-- Host `0` starts a stream, and a pass of host `1` comes upon it. -/
def foreignRespawn : List (Fin 2 × Label) :=
  ((.put (startAt 0 [1]) :: startLabels 0 10).map fun l => (0, l)) ++
    [.detect, .call .sched .ok, .call .sched .ok, .call .sched .ok].map fun l => (1, l)

/-- Only starts are put, no call fails, forks return fresh pids and no process of the service crashes. -/
def Cluster.calm {T : Type} [Fintype ι] (name : ι → Str) (c : Cluster ι T) (l : ι × Label) : Bool :=
  c.startsNew name l && l.2.dbOk && l.2.forkOk && (c.sys l.1).freshFork l.2 && (c.sys l.1).noCrash l.2

def foreignRespawnEnd : Cluster (Fin 2) (Act Int) :=
  (check (clusterStep fun _ => service sampleEnv) (fun c l => c.calm twoNames l = true) foreignRespawn
    twoHosts).get (by decide)

/-- The respawn goes on. -/
def foreignRespawned : List (Fin 2 × Label) := foreignRespawn ++ [(1, .call .sched (.pid 11))]

def foreignRespawnedEnd : Cluster (Fin 2) (Act Int) :=
  (check (clusterStep fun _ => service sampleEnv) (fun c l => c.calm twoNames l = true) foreignRespawned
    twoHosts).get (by decide)

theorem foreign_stream_respawned :
    (¬ ∀ (n : Nat) (env : Fin n → Env) (name : Fin n → Str) (W : Fin n → Nat) (coll : List Doc) (os : Fin n → Os)
      (ls : List (Fin n × Label)) (c : Cluster (Fin n) (Act Int)),
      Injective (fun i => cStr (name i)) → Placed name coll os →
      Runs (clusterStep fun i => service (env i)) (fun c l => c.calm name l = true)
        (Cluster.boot (fun i => W i) coll os) ls c → c.RespawnsOwn (fun i => service (env i)) name) ∧
    ¬ ∀ (n : Nat) (env : Fin n → Env) (name : Fin n → Str) (W : Fin n → Nat) (coll : List Doc) (os : Fin n → Os)
      (ls : List (Fin n × Label)) (c : Cluster (Fin n) (Act Int)),
      Injective (fun i => cStr (name i)) → Placed name coll os →
      Runs (clusterStep fun i => service (env i)) (fun c l => c.calm name l = true)
        (Cluster.boot (fun i => W i) coll os) ls c → c.OneEach := by
  constructor
  · intro h
    have hown := h 2 (fun _ => sampleEnv) twoNames (fun _ => 1) [] (fun _ => ⟨[], []⟩) foreignRespawn
      foreignRespawnEnd (by decide) twoHosts_placed (runs_get _)
    have hij := hown 1 0 { (startAt 0 [1]).process with pid := 10, ppid := 1, status := lit "active" }
      (ServerBiz.processDoc sampleEnv { (startAt 0 [1]).process with pid := 10 }) (by decide) (by decide)
      (by decide) (by decide)
    exact absurd hij (by decide)
  · intro h
    have hone := h 2 (fun _ => sampleEnv) twoNames (fun _ => 1) [] (fun _ => ⟨[], []⟩) foreignRespawned
      foreignRespawnedEnd (by decide) twoHosts_placed (runs_get _) [1]
    exact absurd hone (by decide)

/-- Both hosts have a stream, the one of host `0` crashes and is respawned there with a pid that host `1`
has given to its own stream, and a pass of host `1` goes over both. -/
def passesAtHome : List (Fin 2 × Label) :=
  ((.put (startAt 0 [1]) :: startLabels 0 10).map fun l => (0, l)) ++
    ((.put (startAt 1 [2]) :: startLabels 0 11).map fun l => (1, l)) ++
    ([.die 10, .detect, .call .sched .ok, .call .sched .ok, .call .sched .ok, .call .sched (.pid 11),
      .call .sched .ok, .call .sched .ok, .detectEnd].map fun l => (0, l)) ++
    [.detect, .call .sched .ok, .call .sched .ok, .call .sched .ok, .detectEnd].map fun l => (1, l)

def passesAtHomeEnd : Cluster (Fin 2) (Act Int) :=
  (check (clusterStep fun _ => service sampleEnv)
    (fun c l => c.startsNew twoNames l = true ∧ c.looksHome (fun _ => service sampleEnv) twoNames l = true ∧
      ∀ _ : Fin 2, l.2.intact sampleEnv ["sid"] = true) passesAtHome twoHosts).get (by decide)

theorem streams_stay_home_two :
    passesAtHomeEnd.RespawnsOwn (fun _ => service sampleEnv) twoNames ∧ passesAtHomeEnd.OneEach :=
  streams_stay_home (W := fun _ => 1) (by decide) twoHosts_placed nofun (runs_get _)

end PullStream
