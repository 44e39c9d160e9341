import PullStream.Control.Conf
import PullStream.Base.Lane
/-!
# Dispatching events to workers

`put_data` deals accepted events out to the queues in turn, and a worker pops an event only after the
function for it has returned. So at every moment what worker `i` has finished, followed by what is in its
queue, is lane `i` of the accepted events (`Delivery.lanes`), whatever the functions do, which calls fail
and how the parties interleave. `events_delivered` reads off what this says about single events.

This is for a positive number of workers. `worker_index_safe_iff` says that it is also exactly then that
`put_data` stays inside `worker_list`.
-/

namespace PullStream

open Function Transition Lane

/-- The events worker `i` has popped, in order. -/
def finishedBy (i : Nat) (finished : List Done) : List Event :=
  (finished.filter fun d => d.worker = i).map (·.ev)

theorem finishedBy_concat (i : Nat) (finished : List Done) (d : Done) :
    finishedBy i (finished ++ [d]) =
      if d.worker = i then finishedBy i finished ++ [d.ev] else finishedBy i finished := by
  by_cases h : d.worker = i <;> simp [finishedBy, h]

/-- What the dispatcher and the workers maintain about the queues. -/
structure Delivery (W : Nat) (v : Conf) : Prop where
  workers : v.workers = W
  max : v.workerMax = W
  index : v.workerIndex = (v.accepted.length % W : Nat)
  done : ∀ d ∈ v.finished, d.worker < W
  busy : ∀ i, W ≤ i → v.queue i = []
  lanes : ∀ i < W, finishedBy i v.finished ++ v.queue i = lane W i v.accepted

namespace Delivery

variable {W : Nat} {env : Env} {v v' : Conf} {l : Label}

theorem next_index (n W : Nat) : (((n % W : Nat) : Int) + 1).tmod W = ((n + 1) % W : Nat) := by
  rw [← Nat.mod_add_mod n W 1]
  exact (Int.ofNat_tmod (n % W + 1) W).symm

theorem put (h : Delivery W v) {ev : Event} {n : Nat} (hn : v.workerIndex = n) :
    ∀ i < W, finishedBy i v.finished ++ update v.queue n (v.queue n ++ [ev]) i =
      lane W i (v.accepted ++ [ev]) := by
  intro i hi
  have hturn : v.accepted.length % W = n := Int.ofNat.inj (h.index.symm.trans hn)
  rw [lane_concat, hturn, ← h.lanes i hi]
  by_cases hin : n = i
  · subst hin
    simp
  · simp [hin, Ne.symm hin]

theorem pop (h : Delivery W v) {i : Nat} {ev : Event} {q : List Event} {rtn : Int}
    (hq : v.queue i = ev :: q) :
    ∀ j < W, finishedBy j (v.finished ++ [⟨i, ev, rtn⟩]) ++ update v.queue i q j =
      lane W j v.accepted := by
  intro j hj
  rw [← h.lanes j hj, finishedBy_concat]
  by_cases hji : i = j
  · subst hji
    simp [hq]
  · simp [hji, Ne.symm hji]

theorem move (h : Delivery W v) (hfits : v.Fits env) (hm : Moves env v l v') : Delivery W v' := by
  cases hm with
  | put hn hlt =>
    rename_i ev n
    refine ⟨h.workers, h.max, ?_, h.done, fun i hi => ?_, h.put hn⟩
    · show (v.workerIndex + 1).tmod v.workerMax = _
      rw [h.index, h.max, next_index, List.length_append, List.length_singleton]
    · have hne : i ≠ n := by
        have := h.workers
        omega
      exact (update_of_ne hne ..).trans (h.busy i hi)
  | pop hev ht hq =>
    rename_i i ev₀ ev q rtn
    obtain ⟨q', hq'⟩ := hfits.front i ev hev
    obtain ⟨rfl, rfl⟩ := List.cons.inj (hq'.symm.trans hq)
    have hi : i < W := Nat.lt_of_not_le fun hle => by simp [h.busy i hle] at hq
    refine ⟨h.workers, h.max, h.index, fun d hd => ?_, fun j hj => ?_, h.pop hq⟩
    · rcases List.mem_append.mp hd with hd | hd
      · exact h.done d hd
      · exact List.mem_singleton.mp hd ▸ hi
    · have hne : j ≠ i := by omega
      exact (update_of_ne hne ..).trans (h.busy j hj)
  | front | call | abort | detect | detectEnd | die | appear =>
    exact ⟨h.workers, h.max, h.index, h.done, h.busy, h.lanes⟩

theorem lt_of_mem_queue (h : Delivery W v) {i : Nat} {ev : Event} (hev : ev ∈ v.queue i) : i < W :=
  Nat.lt_of_not_le fun hle => List.not_mem_nil (h.busy i hle ▸ hev)

theorem mem_lane_of_queue (h : Delivery W v) {i : Nat} {ev : Event} (hev : ev ∈ v.queue i) :
    ev ∈ lane W i v.accepted := by
  rw [← h.lanes i (h.lt_of_mem_queue hev)]
  exact List.mem_append_right _ hev

theorem mem_finishedBy (h : Delivery W v) {d : Done} (hd : d ∈ v.finished) :
    d.worker < W ∧ d.ev ∈ finishedBy d.worker v.finished :=
  ⟨h.done d hd, List.mem_map_of_mem (List.mem_filter.mpr ⟨hd, decide_eq_true rfl⟩)⟩

theorem mem_lane_of_finished (h : Delivery W v) {d : Done} (hd : d ∈ v.finished) :
    d.ev ∈ lane W d.worker v.accepted := by
  obtain ⟨hlt, hmem⟩ := h.mem_finishedBy hd
  rw [← h.lanes d.worker hlt]
  exact List.mem_append_left _ hmem

theorem accepted_of_queue (h : Delivery W v) {i : Nat} {ev : Event} (hev : ev ∈ v.queue i) :
    ev ∈ v.accepted :=
  mem_of_mem_lane (h.lt_of_mem_queue hev) (h.mem_lane_of_queue hev)

theorem accepted_of_finished (h : Delivery W v) {d : Done} (hd : d ∈ v.finished) : d.ev ∈ v.accepted :=
  mem_of_mem_lane (h.done d hd) (h.mem_lane_of_finished hd)

theorem queues_apart (h : Delivery W v) (hnd : (v.accepted.map Event.key).Nodup) {i j : Nat} {ev ev' : Event}
    (hi : ev ∈ v.queue i) (hj : ev' ∈ v.queue j) (hkey : ev.key = ev'.key) : i = j :=
  lane_apart (h.lt_of_mem_queue hi) (h.lt_of_mem_queue hj) hnd (h.mem_lane_of_queue hi)
    (h.mem_lane_of_queue hj) hkey

theorem finished_apart (h : Delivery W v) (hnd : (v.accepted.map Event.key).Nodup) {i : Nat} {d : Done}
    {ev : Event} (hd : d ∈ v.finished) (hev : ev ∈ v.queue i) : d.ev.key ≠ ev.key := by
  intro hkey
  obtain ⟨hlt, hmem⟩ := h.mem_finishedBy hd
  have hi := lane_apart hlt (h.lt_of_mem_queue hev) hnd (h.mem_lane_of_finished hd)
    (h.mem_lane_of_queue hev) hkey
  subst hi
  have hlane := nodup_lane hlt hnd
  rw [← h.lanes _ hlt, List.map_append, List.nodup_append] at hlane
  exact hlane.2.2 _ (List.mem_map_of_mem hmem) _ (List.mem_map_of_mem hev) hkey

end Delivery

theorem delivery_boot (W : Nat) (coll : List Doc) (os : Os) :
    Delivery W (Sys.boot W coll os : Sys Ctl).conf where
  workers := by simp [Sys.conf, Sys.boot]
  max := rfl
  index := by simp [Sys.conf, Sys.boot]
  done := nofun
  busy i _ := queue_boot W coll os i
  lanes i _ := queue_boot W coll os i

theorem delivery_of_runs {env : Env} {W : Nat} {coll : List Doc} {os : Os}
    {ok : Sys Ctl → Label → Prop} {ls : List Label} {u : Sys Ctl}
    (h : Runs (step (points env)) ok (Sys.boot W coll os) ls u) : Delivery W u.conf := by
  refine (h.inv (fun t => t.conf.Fits env ∧ Delivery W t.conf) ⟨fits_boot .., delivery_boot ..⟩ ?_).2
  intro t l u ⟨hfits, hd⟩ _ hstep
  have hm := moves_of_step hstep
  exact ⟨hfits.move hm, hd.move hfits hm⟩

/-- **Every accepted event is delivered exactly once, to the worker whose turn it is, in order.** -/
theorem events_delivered {env : Env} {W : Nat} {coll : List Doc} {os : Os} {ls : List Label}
    {s : Sys (Act Int)} (hW : 1 ≤ W)
    (h : Runs (step (service env)) (fun _ _ => True) (Sys.boot W coll os) ls s) :
    (∀ i < W, ∀ n, (finishedBy i s.finished ++ s.queue i)[n]? = s.accepted[i + n * W]?) ∧
    ((List.range W).flatMap fun i => finishedBy i s.finished ++ s.queue i).Perm s.accepted ∧
    (∀ d ∈ s.finished, d.worker < W) ∧
    ∀ i < W, ∀ j < W, (finishedBy i s.finished ++ s.queue i).length ≤
      (finishedBy j s.finished ++ s.queue j).length + 1 := by
  rw [← Sys.map_boot (Ctl.code env)] at h
  obtain ⟨u, rfl, hrun⟩ := runs_points h
  have hd := delivery_of_runs hrun
  have hlane : ∀ i < W, finishedBy i u.finished ++ u.queue i = lane W i u.accepted := hd.lanes
  simp only [Sys.map_finished, Sys.map_queue, Sys.map_accepted]
  refine ⟨fun i hi n => ?_, ?_, hd.done, fun i hi j hj => ?_⟩
  · rw [hlane i hi, getElem?_lane hi]
  · have heq : (List.range W).flatMap (fun i => finishedBy i u.finished ++ u.queue i) =
        (List.range W).flatMap fun i => lane W i u.accepted := by
      refine congrArg List.flatten (List.map_congr_left fun i hi => ?_)
      exact hlane i (List.mem_range.mp hi)
    rw [heq]
    exact lanes_perm hW u.accepted
  · rw [hlane i hi, hlane j hj]
    exact length_lane_le hi hj

/-- Three events for two workers, of which worker `0` has finished one. -/
def threeEvents : List Label :=
  [.put (startEvent [1]), .put (startEvent [2]), .put (startEvent [3])] ++ startLabels 0 10

def threeEventsEnd : Sys (Act Int) :=
  (check (step (service sampleEnv)) (fun _ _ => True) threeEvents
    (Sys.boot (2 : Nat) [] ⟨[], []⟩)).get (by decide)

theorem events_delivered_three :
    (∀ i < 2, ∀ n, (finishedBy i threeEventsEnd.finished ++ threeEventsEnd.queue i)[n]? =
      threeEventsEnd.accepted[i + n * 2]?) ∧
    ((List.range 2).flatMap fun i =>
      finishedBy i threeEventsEnd.finished ++ threeEventsEnd.queue i).Perm threeEventsEnd.accepted ∧
    (∀ d ∈ threeEventsEnd.finished, d.worker < 2) ∧
    ∀ i < 2, ∀ j < 2, (finishedBy i threeEventsEnd.finished ++ threeEventsEnd.queue i).length ≤
      (finishedBy j threeEventsEnd.finished ++ threeEventsEnd.queue j).length + 1 :=
  events_delivered (by decide) (runs_get _)

/-! ### The worker that `put_data` takes -/

/-- The values of an `int`. -/
def InInt (n : Int) : Prop := -2 ^ 31 ≤ n ∧ n < 2 ^ 31

instance (n : Int) : Decidable (InInt n) := inferInstanceAs (Decidable (_ ∧ _))

/-- `worker_list[worker_index]` exists, and `(worker_index + 1) % worker_max` is defined. -/
structure Sys.Indexed {T : Type} (s : Sys T) : Prop where
  lower : 0 ≤ s.workerIndex
  upper : s.workerIndex < s.workerList.length
  next : InInt (s.workerIndex + 1)
  nonzero : s.workerMax ≠ 0
  quotient : InInt ((s.workerIndex + 1).tdiv s.workerMax)

section

variable {env : Env} {n : Int} {coll : List Doc} {os : Os} {ok : Sys Ctl → Label → Prop} {ls : List Label}
  {u : Sys Ctl} {v v' : Conf} {l : Label}

theorem Moves.workers (hm : Moves env v l v') : v'.workers = v.workers := by
  cases hm <;> rfl

theorem workers_of_runs (h : Runs (step (points env)) ok (Sys.boot n coll os) ls u) :
    u.conf.workers = n.toNat := by
  refine h.inv (fun t => t.conf.workers = n.toNat) List.length_replicate ?_
  intro t l u ht _ hstep
  exact (moves_of_step hstep).workers.trans ht

theorem indexed_of_delivery {W : Nat} {T : Type} {s : Sys T} (hW : 0 < W) (hint : InInt W)
    (hworkers : s.workerList.length = W) (hmax : s.workerMax = W)
    (hindex : s.workerIndex = (s.accepted.length % W : Nat)) : s.Indexed := by
  have hlt : s.accepted.length % W < W := Nat.mod_lt _ hW
  have hnext : 0 ≤ s.workerIndex + 1 ∧ s.workerIndex + 1 ≤ W := by omega
  have hquotient : 0 ≤ (s.workerIndex + 1).tdiv s.workerMax ∧
      (s.workerIndex + 1).tdiv s.workerMax ≤ s.workerIndex + 1 := by
    rw [hmax]
    exact ⟨Int.tdiv_nonneg hnext.1 (by omega), Int.tdiv_le_self _ hnext.1⟩
  unfold InInt at hint
  refine ⟨by omega, by omega, ?_, by omega, ?_⟩
  · exact ⟨by omega, by omega⟩
  · exact ⟨by omega, by omega⟩

/-- **`put_data` finds a worker, in every state of every run, exactly if the configured number of workers is
positive.** -/
theorem worker_index_safe_iff {s : Sys (Act Int)} (hint : InInt n)
    (h : Runs (step (service env)) (fun _ _ => True) (Sys.boot n coll os) ls s) : s.Indexed ↔ 0 < n := by
  rw [← Sys.map_boot (Ctl.code env)] at h
  obtain ⟨u, rfl, hrun⟩ := runs_points h
  have hworkers : (u.map (Ctl.code env)).workerList.length = n.toNat :=
    (List.length_map (f := _) ..).trans (workers_of_runs hrun)
  constructor
  · intro hindexed
    have hlt := hindexed.upper
    have hle := hindexed.lower
    omega
  · intro hn
    obtain ⟨W, rfl⟩ := Int.eq_ofNat_of_zero_le hn.le
    have hd := delivery_of_runs hrun
    exact indexed_of_delivery (by omega) hint hworkers hd.max hd.index

end

theorem worker_index_safe_iff_three : threeEventsEnd.Indexed ↔ 0 < (2 : Int) :=
  @worker_index_safe_iff sampleEnv 2 [] ⟨[], []⟩ threeEvents threeEventsEnd (by decide) (runs_get _)

/-- `main` lets a negative number of workers through. -/
theorem worker_index_negative :
    ¬ ∀ (env : Env) (n : Int) (coll : List Doc) (os : Os) (ls : List Label) (s : Sys (Act Int)), n ≠ 0 → InInt n →
      Runs (step (service env)) (fun _ _ => True) (Sys.boot n coll os) ls s → s.Indexed := by
  intro h
  have hindexed := h sampleEnv (-1) [] ⟨[], []⟩ [] _ (by decide) (by decide) .nil
  exact absurd hindexed.upper (by decide)

end PullStream
