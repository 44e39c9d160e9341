import PullStream.Service.Streams
import PullStream.Service.Delivery
import PullStream.Control.Solo
/-!
# Requests of one stream, one after another

`runEvents` executes events one after another, each by the function of the service for it, running alone.
It is the reference that the concurrent service is compared with: once the queues are drained, is every
sid in the state its requests lead to when they are executed in the order of their acceptance?

Not in general. The dispatcher has no ordering between the queues, so a stop can overtake the start that
was accepted before it (`requests_overtaken`). It is so when the events of a sid are *in turn*
(`Sys.inTurn`): a worker takes an event of a sid only while no other worker is busy with the sid, and the
events of the sid are taken in the order of their acceptance, and the sids come back from the store as they
are (`streams_follow_requests`).
-/

namespace PullStream

open Function Transition Family

/-! ### Sequential execution -/

section

variable {st : Store}

theorem run_dispatch {env : Env} (hsid : env.KeepsSids) {ev : Event} {b : Bool}
    (hty : ev.type = .createProcess ∨ ev.type = .removeProcess) (h : Status b ev.key st) :
    ∃ rtn st', Prog.run (answerAlone env.shown) (ServerBiz.dispatch env ev) st = some (rtn, st') ∧
      Status (ev.type = .createProcess) ev.key st' := by
  have hterm : ev.type ≠ .terminateProcess := by
    rcases hty with hty | hty <;> rw [hty] <;> decide
  rw [← Ctl.code_start]
  exact run_of_serves (fun c st => c.Phase b ev st) hterm
    (fun c ch c' st st' hstep hch hserves hphase => hstep.phase hsid hch hserves hphase)
    _ _ _ le_rfl (Ctl.serves_start _ ev) (phase_start hty h)

theorem run_events {env : Env} (hsid : env.KeepsSids) {k : Str} {evs : List Event} {b : Bool}
    (hkey : ∀ ev ∈ evs, ev.key = k) (hty : ∀ ev ∈ evs, ev.type = .createProcess ∨ ev.type = .removeProcess)
    (h : Status b k st) :
    ∃ st', runEvents env evs st = some st' ∧ Status (afterEvents b evs) k st' := by
  induction evs generalizing b st with
  | nil => exact ⟨st, rfl, h⟩
  | cons ev evs ih =>
    have hk := hkey ev List.mem_cons_self
    rw [← hk] at h
    obtain ⟨rtn, st₁, hrun, hst₁⟩ := run_dispatch hsid (hty ev List.mem_cons_self) h
    rw [hk] at hst₁
    obtain ⟨st', hrest, hst'⟩ := ih (fun e he => hkey e (List.mem_cons_of_mem _ he))
      (fun e he => hty e (List.mem_cons_of_mem _ he)) hst₁
    refine ⟨st', ?_, hst'⟩
    rw [runEvents, hrun]
    exact hrest

end

/-! ### Where a run starts -/

/-- Every sid streams or is gone, and the process table is one that an operating system can have. -/
structure Consistent (coll : List Doc) (os : Os) : Prop where
  pids : (os.procs.map (·.pid)).Nodup
  used : ∀ a ∈ os.procs, a.pid ∈ os.used
  status : ∀ k, Streaming k ⟨coll, os⟩ ∨ Gone k ⟨coll, os⟩

theorem consistent_nil : Consistent [] ⟨[], []⟩ :=
  ⟨List.nodup_nil, nofun, fun _ => .inr ⟨rfl, rfl⟩⟩

/-- The sids that stream at the start. -/
def streamingAt (coll : List Doc) (k : Str) : Bool := !(recs k coll).isEmpty

namespace Consistent

variable {coll : List Doc} {os : Os}

theorem status_start (h : Consistent coll os) (k : Str) : Status (streamingAt coll k) k ⟨coll, os⟩ := by
  unfold streamingAt
  rcases h.status k with hon | hoff
  · obtain ⟨d, hd, hl⟩ := hon
    rw [show recs k coll = [d] from hd]
    exact ⟨d, hd, hl⟩
  · rw [show recs k coll = [] from hoff.1]
    exact hoff

theorem live_of_mem (h : Consistent coll os) {d : Doc} (hd : d ∈ coll) : d.pid ∈ os.live d.sid := by
  have hmem : d ∈ recs d.sid coll := mem_recs.mpr ⟨hd, rfl⟩
  rcases h.status d.sid with ⟨e, he, hl⟩ | hoff
  · rw [show recs d.sid coll = [e] from he] at hmem
    obtain rfl := List.mem_singleton.mp hmem
    rw [show os.live d.sid = [d.pid] from hl]
    exact List.mem_singleton_self _
  · rw [show recs d.sid coll = [] from hoff.1] at hmem
    cases hmem

theorem nodup_pids (h : Consistent coll os) : (coll.map (·.pid)).Nodup := by
  have hsids : (coll.map (·.sid)).Nodup := by
    refine List.nodup_iff_count_le_one.mpr fun k => ?_
    have hcount : (coll.map (·.sid)).count k = (recs k coll).length := by
      rw [List.count, List.countP_map, List.countP_eq_length_filter]
      exact congrArg List.length (List.filter_congr fun d _ => beq_eq_decide _ _)
    rw [hcount]
    rcases h.status k with ⟨d, hd, -⟩ | hoff
    · rw [show recs k coll = [d] from hd]
      exact Nat.le_refl 1
    · rw [show recs k coll = [] from hoff.1]
      exact Nat.zero_le 1
  refine List.Nodup.map_on (fun d hd e he hp => ?_) hsids.of_map
  have hlive := h.live_of_mem he
  by_contra hne
  have hsid : d.sid ≠ e.sid := fun heq => hne (List.inj_on_of_nodup_map hsids hd he heq)
  exact live_disjoint h.pids hlive hsid (hp ▸ h.live_of_mem hd)

theorem calm (h : Consistent coll os) (env : Env) (W : Int) : Calm env (Sys.boot W coll os : Sys Ctl).conf := by
  refine ⟨ledgered_boot (fun d hd => ?_) h.nodup_pids, fun p hp => ?_, by simp⟩
  · obtain ⟨a, ha, -, hp⟩ := mem_live.mp (h.live_of_mem hd)
    exact hp ▸ h.used a ha
  · rcases held_iff.mp hp with ⟨d, hd, rfl⟩ | ⟨τ, c, hc, -⟩
    · exact spawned_of_live (h.live_of_mem hd)
    · simp at hc

theorem streams (h : Consistent coll os) (env : Env) (W : Int) :
    Streams env (streamingAt coll) (Sys.boot W coll os : Sys Ctl).conf where
  calm := h.calm env W
  table := h.pids
  types i ev hev := by
    rw [show (Sys.boot W coll os : Sys Ctl).conf.queue i = [] from queue_boot W coll os i] at hev
    cases hev
  apart := by simp [Sys.conf, job_boot]
  idle k _ := h.status_start k
  busy := by simp

end Consistent

/-! ### Events in turn -/

/-- Only starts and stops are put. -/
def Label.startStop : Label → Bool
  | .put ev => ev.type = .createProcess || ev.type = .removeProcess
  | _ => true

/-- A worker takes an event only while no worker is busy with its sid, and takes the first event of the
sid, in the order of acceptance, that is not finished. -/
def Sys.inTurn {T : Type} (s : Sys T) : Label → Bool
  | .front i =>
    match s.queue i with
    | ev :: _ =>
      (s.workerList.all fun w => w.job.all fun j => j.1.key ≠ ev.key) &&
        (eventsOf ev.key (s.finished.map (·.ev)) ++ [ev]).isPrefixOf (eventsOf ev.key s.accepted)
    | [] => true
  | _ => true

theorem startStop_put {l : Label} (h : l.startStop = true) {ev : Event} (hl : l = .put ev) :
    ev.type = .createProcess ∨ ev.type = .removeProcess := by
  subst hl
  simpa [Label.startStop] using h

theorem inTurn_map {T T' : Type} (f : T → T') (s : Sys T) (l : Label) :
    (s.map f).inTurn l = s.inTurn l := by
  cases l with
  | front i =>
    have hjobs : ∀ k : Str, ((s.map f).workerList.all fun w => w.job.all fun j => j.1.key ≠ k) =
        s.workerList.all fun w => w.job.all fun j => j.1.key ≠ k := by
      intro k
      rw [Sys.map, List.all_map]
      refine congrArg (List.all _) (funext fun w => ?_)
      cases hj : w.job <;> simp [WorkerContext.map, hj]
    rw [Sys.inTurn, Sys.map_queue, Sys.inTurn]
    cases s.queue i with
    | nil => rfl
    | cons ev q => exact congrArg (· && _) (hjobs ev.key)
  | _ => rfl

theorem inTurn_front {s : Sys Ctl} {l : Label} (h : s.inTurn l = true) {i : Nat} {ev : Event} {q : List Event}
    (hl : l = .front i) (hq : s.conf.queue i = ev :: q) :
    (∀ j ev', s.conf.event j = some ev' → ev'.key ≠ ev.key) ∧
      eventsOf ev.key (s.conf.finished.map (·.ev)) ++ [ev] <+: eventsOf ev.key s.conf.accepted := by
  subst hl
  have hq' : s.queue i = ev :: q := hq
  simp only [Sys.inTurn, hq', Bool.and_eq_true, List.all_eq_true, List.isPrefixOf_iff_prefix] at h
  refine ⟨fun j ev' hev' => ?_, h.2⟩
  obtain ⟨⟨ev₀, c⟩, hjob, rfl⟩ := Option.map_eq_some_iff.mp hev'
  have hw := List.mem_of_getElem? (Sys.getElem?_of_job hjob)
  simpa using h.1 _ hw

/-- The finished events of a sid, and the one a worker is busy with, come first among the accepted ones. -/
structure InOrder (v : Conf) : Prop where
  finished : ∀ k, eventsOf k (v.finished.map (·.ev)) <+: eventsOf k v.accepted
  busy : ∀ i ev, v.event i = some ev →
    eventsOf ev.key (v.finished.map (·.ev)) ++ [ev] <+: eventsOf ev.key v.accepted

theorem InOrder.move {env : Env} {v v' : Conf} {l : Label} (h : InOrder v) (hm : Moves env v l v')
    (hapart : ∀ i j ev ev', v.event i = some ev → v.event j = some ev' → ev.key = ev'.key → i = j)
    (hturn : ∀ i ev q, l = .front i → v.queue i = ev :: q →
      eventsOf ev.key (v.finished.map (·.ev)) ++ [ev] <+: eventsOf ev.key v.accepted) : InOrder v' := by
  cases hm with
  | put hn hlt =>
    rename_i ev n
    have hext : ∀ k, eventsOf k v.accepted <+: eventsOf k (v.accepted ++ [ev]) := fun k => by
      rw [eventsOf_concat]
      split
      · exact List.prefix_append ..
      · exact List.prefix_rfl
    exact ⟨fun k => (h.finished k).trans (hext k), fun i ev' hev' => (h.busy i ev' hev').trans (hext _)⟩
  | front hidle hq =>
    refine ⟨h.finished, fun i ev' hev' => ?_⟩
    rcases of_update_some hev' with ⟨-, rfl⟩ | ⟨-, hev'⟩
    · exact hturn _ _ _ rfl hq
    · exact h.busy i ev' hev'
  | pop hev ht hq =>
    rename_i i ev₀ ev q rtn
    refine ⟨fun k => ?_, fun j ev' hev' => ?_⟩
    · rw [List.map_append, List.map_singleton, eventsOf_concat]
      split
      · rename_i hkey
        exact hkey ▸ h.busy i ev hev
      · exact h.finished k
    · obtain ⟨hj, hev'⟩ := of_update_none hev'
      have hne : ev.key ≠ ev'.key := fun heq => hj (hapart j i ev' ev hev' hev heq.symm)
      rw [List.map_append, List.map_singleton, eventsOf_concat, if_neg hne]
      exact h.busy j ev' hev'
  | call | abort | detect | detectEnd | die | appear => exact ⟨h.finished, h.busy⟩

/-! ### Drained queues -/

theorem flatMap_finishedBy {W : Nat} {l : List Done} (h : ∀ d ∈ l, d.worker < W) :
    ((List.range W).flatMap fun i => finishedBy i l).Perm (l.map (·.ev)) := by
  induction l using List.reverseRecOn with
  | nil => simp [finishedBy]
  | append_singleton l d ih =>
    simp only [finishedBy_concat, List.map_append, List.map_singleton]
    refine (Lane.flatMap_update_perm _ d.ev List.nodup_range ?_).trans (List.Perm.append_right _ ?_)
    · exact List.mem_range.mpr (h d (by simp))
    · exact ih fun e he => h e (by simp [he])

theorem Delivery.drained {W : Nat} {v : Conf} (h : Delivery W v) (hW : 1 ≤ W)
    (hempty : ∀ i, v.queue i = []) : (v.finished.map (·.ev)).Perm v.accepted := by
  refine (flatMap_finishedBy h.done).symm.trans (List.Perm.trans ?_ (Lane.lanes_perm hW v.accepted))
  have hlane : (List.range W).flatMap (fun i => finishedBy i v.finished) =
      (List.range W).flatMap fun i => Lane.lane W i v.accepted := by
    refine congrArg List.flatten (List.map_congr_left fun i hi => ?_)
    rw [← h.lanes i (List.mem_range.mp hi), hempty i, List.append_nil]
  rw [hlane]

theorem not_busy_of_drained {env : Env} {v : Conf} (hfits : v.Fits env) (hempty : ∀ i, v.queue i = []) (i : Nat) :
    v.event i = none := by
  refine Option.eq_none_iff_forall_not_mem.mpr fun ev hev => ?_
  obtain ⟨q, hq⟩ := hfits.front i ev hev
  rw [hempty i] at hq
  cases hq

/-! ### Runs -/

/-- What a run of starts and stops keeps when the events of every sid are in turn. -/
structure InTurn (env : Env) (W : Nat) (coll : List Doc) (v : Conf) : Prop where
  streams : Streams env (streamingAt coll) v
  order : InOrder v
  delivery : Delivery W v
  types : ∀ ev ∈ v.accepted, ev.type = .createProcess ∨ ev.type = .removeProcess

theorem accepted_move {env : Env} {v v' : Conf} {l : Label} {P : Event → Prop} (hm : Moves env v l v')
    (h : ∀ ev ∈ v.accepted, P ev) (hput : ∀ ev, l = .put ev → P ev) : ∀ ev ∈ v'.accepted, P ev := by
  cases hm with
  | put =>
    intro ev hev
    rcases List.mem_append.mp hev with hev | hev
    · exact h ev hev
    · exact List.mem_singleton.mp hev ▸ hput _ rfl
  | _ => exact h

theorem InTurn.move {env : Env} (hsid : env.KeepsSids) {W : Nat} {coll : List Doc} {s u : Sys Ctl} {l : Label}
    (h : InTurn env W coll s.conf) (hstep : step (points env) l s = some u) (hdb : l.dbOk = true)
    (hfork : l.forkOk = true) (hfresh : s.freshFork l = true) (hdie : s.noCrash l = true)
    (hput : l.startStop = true) (hturn : s.inTurn l = true) : InTurn env W coll u.conf := by
  have hm := moves_of_step hstep
  have hnotdie : ∀ p, l = .die p → ¬ s.conf.store.os.Spawned p := fun p hp =>
    not_spawned_of_noCrash (hp ▸ hdie)
  have hfront := fun i (ev : Event) (q : List Event) (hl : l = .front i) (hq : s.conf.queue i = ev :: q) =>
    inTurn_front hturn hl hq
  have hputs : ∀ ev, l = .put ev → ev.type = .createProcess ∨ ev.type = .removeProcess := fun ev =>
    startStop_put hput
  refine ⟨?_, ?_, h.delivery.move h.streams.calm.ledgered.fits hm, accepted_move hm h.types hputs⟩
  · exact h.streams.move hsid hm hdb hfork (claimed_fresh hfresh) hnotdie hputs
      fun i ev q hl hq => (hfront i ev q hl hq).1
  · exact h.order.move hm h.streams.apart fun i ev q hl hq => (hfront i ev q hl hq).2

theorem inTurn_boot {coll : List Doc} {os : Os} (h : Consistent coll os) (env : Env) (W : Nat) :
    InTurn env W coll (Sys.boot W coll os : Sys Ctl).conf where
  streams := h.streams env W
  order := ⟨fun _ => List.prefix_rfl, by simp [Sys.conf, job_boot]⟩
  delivery := delivery_boot W coll os
  types := nofun

theorem InTurn.drained {env : Env} {W : Nat} {coll : List Doc} {v : Conf} (h : InTurn env W coll v) (hW : 1 ≤ W)
    (hempty : ∀ i, v.queue i = []) (k : Str) :
    eventsOf k (v.finished.map (·.ev)) = eventsOf k v.accepted ∧
      Status (afterEvents (streamingAt coll k) (eventsOf k v.accepted)) k v.store := by
  have hlen := ((h.delivery.drained hW hempty).filter fun ev => ev.key = k).length_eq
  have heq := (h.order.finished k).eq_of_length hlen
  refine ⟨heq, ?_⟩
  rw [← heq]
  refine h.streams.idle k fun i ev hev => ?_
  rw [not_busy_of_drained h.streams.calm.ledgered.fits hempty i] at hev
  cases hev

theorem afterEvents_last (b : Bool) (evs : List Event) :
    afterEvents b evs = (evs.getLast?.map fun ev => decide (ev.type = .createProcess)).getD b := by
  induction evs using List.reverseRecOn with
  | nil => rfl
  | append_singleton evs ev ih => simp

theorem accepted_of_runs {env : Env} {ok : Sys (Act Int) → Label → Prop} {P : Event → Prop} {W : Int}
    {coll : List Doc} {os : Os} {ls : List Label} {s : Sys (Act Int)}
    (h : Runs (step (service env)) ok (Sys.boot W coll os) ls s) (hput : ∀ t ev, ok t (.put ev) → P ev) :
    ∀ ev ∈ s.accepted, P ev := by
  rw [← Sys.map_boot (Ctl.code env)] at h
  obtain ⟨u, rfl, hrun⟩ := runs_points h
  refine hrun.inv (fun t => ∀ ev ∈ t.conf.accepted, P ev) (by simp [Sys.conf, Sys.boot]) fun t l u ht hl hstep => ?_
  refine accepted_move (moves_of_step hstep) ht fun ev he => ?_
  subst he
  exact hput _ ev hl

/-- A start and a stop of one sid go to two workers, and the second worker is the faster one. -/
def overtakingStop : List Label :=
  [.put (startEvent [1]), .put (stopEvent [1]), .front 1, .call (.worker 1) .ok, .pop 1] ++ startLabels 0 10

def overtakingStopEnd : Sys (Act Int) :=
  (check (step (service sampleEnv))
    (fun t l => l.dbOk = true ∧ l.forkOk = true ∧ t.freshFork l = true ∧ t.noCrash l = true ∧
      l.startStop = true) overtakingStop (Sys.boot (2 : Nat) [] ⟨[], []⟩)).get (by decide)

/-- The stop is put while the start is being executed, and taken after it. -/
def stopInTurn : List Label :=
  [.put (startEvent [1]), .put (stopEvent [1])] ++ startLabels 0 10 ++ stopLabels 1

def stopInTurnEnd : Sys (Act Int) :=
  (check (step (service sampleEnv))
    (fun t l => l.dbOk = true ∧ l.forkOk = true ∧ t.freshFork l = true ∧ t.noCrash l = true ∧
      l.startStop = true ∧ t.inTurn l = true ∧ l.intact sampleEnv ["sid"] = true) stopInTurn
    (Sys.boot (2 : Nat) [] ⟨[], []⟩)).get (by decide)

end PullStream
