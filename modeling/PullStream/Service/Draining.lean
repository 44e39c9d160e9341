import Mathlib.Algebra.BigOperators.Ring.Finset
import PullStream.Base.Potential
import PullStream.Control.Progress
import PullStream.Service.Delivery
/-!
# Queues are worked off

A worker needs at most five steps for an event, whatever its calls come to: it takes the event, makes three
calls, and pops the event (`Ctl.left`). Nothing that the scheduler, the other workers or the surroundings do adds
to what is left, and a worker with a queue that is not empty can always go on (`worker_goes_on`). So between two
events that are put the workers make at most five steps for each event that is queued, and when they cannot go on
the queues are empty or the service has aborted (`events_worked_off`).

A pass of the scheduler needs at most four calls for each record that there was when it read them
(`pass_terminates`), however the collection changes under it.
-/

namespace PullStream

open Function Transition Family

/-! ### What is left to do -/

/-- The worker that a step is of. -/
def Label.worker? : Label → Option Nat
  | .front i | .call (.worker i) _ | .pop i | .abort i => some i
  | _ => none

/-- The scheduler goes on in its pass, or ends it. -/
def Label.passes : Label → Bool
  | .call .sched _ | .detectEnd => true
  | _ => false

/-- How many events are queued, those that are being processed included. -/
def Sys.backlog {T : Type} (s : Sys T) : Nat := ∑ i ∈ Finset.range s.workerList.length, (s.queue i).length

theorem Sys.backlog_map {T T' : Type} (f : T → T') (s : Sys T) : (s.map f).backlog = s.backlog := by
  have hlen : (s.map f).workerList.length = s.workerList.length := List.length_map _
  simp only [backlog, map_queue, hlen]

/-- The most steps that a worker takes until its queue is empty. -/
def Ctl.left (q : List Event) : Option Ctl → Nat
  | none => 5 * q.length
  | some c => 5 * (q.length - 1) + c.rank + 1

/-- The most steps that a pass takes until it is over, once it has read the records. -/
def Ctl.scanLeft : Ctl → Nat
  | .done _ => 1
  | .detectProbe _ rest => 4 * rest.length + 5
  | .detectLookup _ rest => 4 * rest.length + 4
  | .detectFork _ rest => 4 * rest.length + 3
  | .detectUpdate _ rest => 4 * rest.length + 2
  | _ => 0

theorem scanLeft_detectNext (l : List ProcessInfo) : (Ctl.detectNext l).scanLeft = 4 * l.length + 1 := by
  cases l with
  | nil => rfl
  | cons r rest =>
    show 4 * rest.length + 5 = _
    rw [List.length_cons]
    omega

section

variable {env : Env} {st st' : Store} {c c' : Ctl} {ch : Choice} {ev : Event} {v v' : Conf} {l : Label}

theorem quiet_of_worker (h : l.worker?.isSome = true) : l.quiet := by
  rintro ev rfl
  cases h

theorem rank_start (ev : Event) : (Ctl.start ev).rank ≤ 3 := by
  unfold Ctl.start
  cases ev.type with
  | terminateProcess => exact Nat.zero_le 3
  | _ => exact Nat.le_refl 3

theorem FStep.rank_lt (h : FStep c c') (hc : c.Serves env ev) : c'.rank < c.rank := by
  cases h with
  | _ => first | exact hc.elim | exact Nat.lt_succ_self _ | exact Nat.succ_pos _

theorem CStep.scanLeft_lt (h : CStep env st c ch c' st') (hc : c.Scans) (hfind : c ≠ .detectFind) :
    c'.scanLeft < c.scanLeft := by
  cases h with
  | snapshot => exact absurd rfl hfind
  | probeDead | lookupFound | detectForked => exact Nat.lt_succ_self _
  | probeAlive | lookupAbsent | detectForkFailed | detectUpdate =>
    rw [scanLeft_detectNext]
    show _ < 4 * _ + _
    omega
  | _ => exact hc.elim

theorem FStep.scanLeft_lt (h : FStep c c') (hc : c.Scans) (hfind : c ≠ .detectFind) :
    c'.scanLeft < c.scanLeft := by
  cases h with
  | snapshot => exact absurd rfl hfind
  | lookup | detectUpdate =>
    rw [scanLeft_detectNext]
    show _ < 4 * _ + _
    omega
  | _ => exact hc.elim

/-! ### The work of the workers -/

/-- The share of worker `i`. -/
def Conf.leftOf (v : Conf) (i : Nat) : Nat := Ctl.left (v.queue i) (v.thread (.worker i))

/-- What is left to do for the workers. -/
def Conf.work (v : Conf) : Nat := if v.aborted then 0 else ∑ i ∈ Finset.range v.workers, v.leftOf i

theorem Conf.Fits.call_rank (h : v.Fits env) {i : Nat} (ht : v.thread (.worker i) = some c)
    (hc : Acts env v.store c ch c' st') : c'.rank < c.rank := by
  obtain ⟨ev, -, hserves⟩ := h.worker i c ht
  by_cases hdb : ch = .dbFail
  · subst hdb
    exact (hc.fstep hserves.parent).1.rank_lt hserves
  · exact (hc.cstep hserves.parent hdb).rank_lt hserves

theorem Moves.others (hm : Moves env v l v') {j : Nat} (hj : l.worker? ≠ some j) :
    v'.thread (.worker j) = v.thread (.worker j) ∧ v'.event j = v.event j ∧
      (l.quiet → v'.queue j = v.queue j) := by
  cases hm with
  | put => exact ⟨rfl, rfl, fun hl => absurd rfl (hl _)⟩
  | @front i ev q hidle hq =>
    have hji : j ≠ i := fun he => hj (congrArg some he.symm)
    simp [hji]
  | @call τ ch c c' st' ht hc =>
    have hτ : Tid.worker j ≠ τ := by
      rintro rfl
      exact hj rfl
    simp [hτ]
  | @pop i ev₀ ev q rtn hev ht hq =>
    have hji : j ≠ i := fun he => hj (congrArg some he.symm)
    simp [hji]
  | abort | die | appear => exact ⟨rfl, rfl, fun _ => rfl⟩
  | detect | detectEnd => simp

theorem Moves.leftOf_eq (hm : Moves env v l v') (hl : l.quiet) {j : Nat} (hj : l.worker? ≠ some j) :
    v'.leftOf j = v.leftOf j := by
  obtain ⟨hthread, -, hqueue⟩ := hm.others hj
  rw [Conf.leftOf, hthread, hqueue hl]
  rfl

theorem Moves.leftOf_lt (hm : Moves env v l v') (hfits : v.Fits env) (hl : l.quiet) {i : Nat}
    (hi : l.worker? = some i) (habort : ∀ j, l ≠ .abort j) : v.queue i ≠ [] ∧ v'.leftOf i < v.leftOf i := by
  cases hm with
  | put => exact absurd rfl (hl _)
  | @front i' ev q hidle hq =>
    obtain rfl : i' = i := Option.some.inj hi
    refine ⟨hq ▸ nofun, ?_⟩
    have hrank := rank_start ev
    simp only [Conf.leftOf, update_self, hfits.idle hidle, hq, Ctl.left, List.length_cons]
    omega
  | @call τ ch c c' st' ht hc =>
    obtain ⟨i', rfl⟩ : ∃ i', τ = .worker i' := by
      cases τ with
      | worker i' => exact ⟨i', rfl⟩
      | sched => cases hi
    obtain rfl : i' = i := Option.some.inj hi
    obtain ⟨ev, hev, -⟩ := hfits.worker i' c ht
    obtain ⟨q, hq⟩ := hfits.front i' ev hev
    refine ⟨hq ▸ nofun, ?_⟩
    have hrank := hfits.call_rank ht hc
    simp only [Conf.leftOf, update_self, ht, hq, Ctl.left, List.length_cons]
    omega
  | @pop i' ev₀ ev q rtn hev ht hq =>
    obtain rfl : i' = i := Option.some.inj hi
    refine ⟨hq ▸ nofun, ?_⟩
    simp only [Conf.leftOf, update_self, ht, hq, Ctl.left, List.length_cons]
    omega
  | abort => exact absurd rfl (habort _)
  | die | appear | detect | detectEnd => cases hi

theorem Moves.aborted_eq (hm : Moves env v l v') (habort : ∀ j, l ≠ .abort j) : v'.aborted = v.aborted := by
  cases hm with
  | abort => exact absurd rfl (habort _)
  | _ => rfl

theorem Moves.asserting {i : Nat} (hm : Moves env v (.abort i) v') : v.thread (.worker i) = some .asserting := by
  cases hm
  assumption

variable {s u : Sys Ctl}

theorem lt_workers_of_queue {i : Nat} (h : s.conf.queue i ≠ []) : i < s.conf.workers := by
  by_contra hi
  have hnone : s.workerList[i]? = none := List.getElem?_eq_none (Nat.le_of_not_lt hi)
  exact h (by simp [Sys.conf, Sys.queue, hnone])

theorem worker_of_aborted (h : step (points env) l s = some u) (ha : s.aborted = true) :
    l.worker? = none ∧ u.aborted = true := by
  cases l with
  | die p =>
    obtain ⟨-, rfl⟩ := step_die h
    exact ⟨rfl, ha⟩
  | appear p =>
    obtain ⟨-, rfl⟩ := step_appear h
    exact ⟨rfl, ha⟩
  | _ => exact absurd ((step_running h nofun nofun).1.symm.trans ha) nofun

/-- **A step leaves no more work than there was, and a step of a worker leaves less.** -/
theorem work_of_step (h : step (points env) l s = some u) (hfits : s.conf.Fits env) (hl : l.quiet) :
    u.conf.work ≤ s.conf.work ∧ (l.worker?.isSome = true → u.conf.work < s.conf.work) := by
  have hm := moves_of_step h
  cases ha : s.aborted with
  | true =>
    obtain ⟨hnone, hu⟩ := worker_of_aborted h ha
    have hwork : u.conf.work = 0 := if_pos hu
    exact ⟨hwork ▸ Nat.zero_le _, by simp [hnone]⟩
  | false =>
    have hs : s.conf.work = ∑ j ∈ Finset.range s.conf.workers, s.conf.leftOf j := by
      rw [Conf.work, if_neg]
      simp [Sys.conf, ha]
    by_cases hab : ∃ i, l = .abort i
    · obtain ⟨i, rfl⟩ := hab
      have hu : u.conf.work = 0 := if_pos (congrArg (fun t : Sys Ctl => t.aborted) (step_abort h).2)
      have ht := hm.asserting
      obtain ⟨ev, hev, -⟩ := hfits.worker i _ ht
      obtain ⟨q, hq⟩ := hfits.front i ev hev
      have hpos : 0 < s.conf.leftOf i := by
        simp only [Conf.leftOf, ht, Ctl.left]
        omega
      have hsum : s.conf.leftOf i ≤ ∑ j ∈ Finset.range s.conf.workers, s.conf.leftOf j :=
        Finset.single_le_sum (fun j _ => Nat.zero_le _)
          (Finset.mem_range.mpr (lt_workers_of_queue (hq ▸ List.cons_ne_nil ev q)))
      rw [hu, hs]
      exact ⟨Nat.zero_le _, fun _ => Nat.lt_of_lt_of_le hpos hsum⟩
    · have habort : ∀ j, l ≠ .abort j := fun j hj => hab ⟨j, hj⟩
      have hu : u.conf.work = ∑ j ∈ Finset.range s.conf.workers, u.conf.leftOf j := by
        rw [Conf.work, if_neg, hm.workers]
        rw [hm.aborted_eq habort]
        simp [Sys.conf, ha]
      rw [hs, hu]
      cases hi : l.worker? with
      | none =>
        have hother : ∀ j, l.worker? ≠ some j := by simp [hi]
        exact ⟨Finset.sum_le_sum fun j _ => Nat.le_of_eq (hm.leftOf_eq hl (hother j)),
          fun h => absurd h Bool.false_ne_true⟩
      | some i =>
        obtain ⟨hq, hlt⟩ := hm.leftOf_lt hfits hl hi habort
        have hother : ∀ j, j ≠ i → u.conf.leftOf j = s.conf.leftOf j := by
          intro j hj
          refine hm.leftOf_eq hl fun he => hj ?_
          exact Option.some.inj (he.symm.trans hi)
        have hsum : ∑ j ∈ Finset.range s.conf.workers, u.conf.leftOf j <
            ∑ j ∈ Finset.range s.conf.workers, s.conf.leftOf j :=
          sum_lt_of_update (Finset.mem_range.mpr (lt_workers_of_queue hq)) hother hlt
        exact ⟨Nat.le_of_lt hsum, fun _ => hsum⟩

theorem work_le_backlog (hfits : s.conf.Fits env) : s.conf.work ≤ 5 * s.backlog := by
  have hshare : ∀ i, s.conf.leftOf i ≤ 5 * (s.queue i).length := by
    intro i
    unfold Conf.leftOf
    cases ht : s.conf.thread (.worker i) with
    | none => exact Nat.le_refl _
    | some c =>
      obtain ⟨ev, hev, -⟩ := hfits.worker i c ht
      obtain ⟨q, hq⟩ := hfits.front i ev hev
      have hrank : c.rank ≤ 3 := by
        cases c <;> simp [Ctl.rank]
      replace hq : s.queue i = ev :: q := hq
      show 5 * ((s.queue i).length - 1) + c.rank + 1 ≤ _
      rw [hq, List.length_cons]
      omega
  unfold Conf.work Sys.backlog
  split_ifs
  · exact Nat.zero_le _
  · rw [Finset.mul_sum]
    exact Finset.sum_le_sum fun i _ => hshare i

end

/-! ### A pass of the scheduler -/

section

variable {env : Env} {v v' : Conf} {l : Label} {s u : Sys Ctl}

/-- What is left to do in the pass. -/
def Conf.scanLeft (v : Conf) : Nat := ((v.thread .sched).map Ctl.scanLeft).getD 0

/-- The pass has read the records. -/
def Conf.HasRead (v : Conf) : Prop := v.thread .sched ≠ some .detectFind

theorem Conf.Fits.call_scanLeft (h : v.Fits env) (hread : v.HasRead) {ch : Choice} {c c' : Ctl} {st' : Store}
    (ht : v.thread .sched = some c) (hc : Acts env v.store c ch c' st') : c'.scanLeft < c.scanLeft := by
  have hscans := h.sched c ht
  have hfind : c ≠ .detectFind := by
    rintro rfl
    exact hread ht
  by_cases hdb : ch = .dbFail
  · subst hdb
    exact (hc.fstep hscans.parent).1.scanLeft_lt hscans hfind
  · exact (hc.cstep hscans.parent hdb).scanLeft_lt hscans hfind

/-- **A step leaves no more of a pass than there was, and a step of the pass leaves less**, as long as no new pass
begins. -/
theorem Moves.scanLeft (hm : Moves env v l v') (hfits : v.Fits env) (hread : v.HasRead) (hl : l ≠ .detect) :
    v'.scanLeft ≤ v.scanLeft ∧ (l.passes = true → v'.scanLeft < v.scanLeft) := by
  cases hm with
  | @call τ ch c c' st' ht hc =>
    cases τ with
    | worker i => simp [Conf.scanLeft, Label.passes]
    | sched =>
      have hlt := hfits.call_scanLeft hread ht hc
      simp only [Conf.scanLeft, update_self, ht, Option.map_some, Option.getD_some]
      exact ⟨Nat.le_of_lt hlt, fun _ => hlt⟩
  | detect => exact absurd rfl hl
  | detectEnd ht => simp [Conf.scanLeft, ht, Ctl.scanLeft]
  | front | pop => simp [Conf.scanLeft, Label.passes]
  | put | abort | die | appear => exact ⟨Nat.le_refl _, nofun⟩

theorem Acts.ne_detectFind {c c' : Ctl} {ch : Choice} {st st' : Store} (h : Acts env st c ch c' st') (hc : c.Scans) :
    c' ≠ .detectFind := by
  have hnext : ∀ l, Ctl.detectNext l ≠ .detectFind := by
    intro l
    cases l <;> exact nofun
  by_cases hdb : ch = .dbFail
  · subst hdb
    cases (h.fstep hc.parent).1 with
    | lookup | detectUpdate => exact hnext _
    | _ => exact nofun
  · cases h.cstep hc.parent hdb with
    | snapshot | probeAlive | lookupAbsent | detectForkFailed | detectUpdate => exact hnext _
    | _ => exact nofun

theorem Moves.hasRead (hm : Moves env v l v') (hfits : v.Fits env) (hread : v.HasRead) (hl : l ≠ .detect) :
    v'.HasRead := by
  cases hm with
  | @call τ ch c c' st' ht hc =>
    cases τ with
    | worker i => simpa [Conf.HasRead] using hread
    | sched => simpa [Conf.HasRead] using hc.ne_detectFind (hfits.sched c ht)
  | detect => exact absurd rfl hl
  | detectEnd ht => simp [Conf.HasRead]
  | front | pop => simpa [Conf.HasRead] using hread
  | put | abort | die | appear => exact hread

theorem scanLeft_of_find {ch : Choice} (h : step (points env) (.call .sched ch) s = some u) (hfits : s.conf.Fits env)
    (hfind : s.conf.thread .sched = some .detectFind) :
    u.conf.scanLeft ≤ 4 * s.coll.length + 1 ∧ u.conf.HasRead := by
  have hm := moves_of_step h
  generalize hu : u.conf = v at hm
  cases hm with
  | @call τ ch c c' st' ht hc =>
    obtain rfl : c = .detectFind := Option.some.inj (ht.symm.trans hfind)
    have hread := hc.ne_detectFind (hfits.sched _ ht)
    simp only [Conf.scanLeft, Conf.HasRead, update_self, Option.map_some, Option.getD_some]
    refine ⟨?_, fun h => hread (Option.some.inj h)⟩
    by_cases hdb : ch = .dbFail
    · subst hdb
      cases (hc.fstep (hfits.parent ht)).1
      exact Nat.le_add_left 1 _
    · cases hc.cstep (hfits.parent ht) hdb
      rw [scanLeft_detectNext, List.length_map]
      rfl

end

/-! ### Somebody can always go on -/

section

variable {T : Type} {I : Threads T} {s : Sys T}

theorem call_goes_on (hrun : s.aborted = false) {τ : Tid} {t : T} {c : Call} {k : Reply c → T}
    (ht : s.thread τ = some t) (hv : I.view t = .call c k) (hc : c ≠ .assertFail) :
    ∃ ch u, step I (.call τ ch) s = some u := by
  obtain ⟨x, hx⟩ := answerAlone_some I.shown s.store hc
  exact ⟨_, _, step_of_call hrun ht hv hx⟩

/-- **A worker whose queue is not empty can go on**, unless the service has aborted. -/
theorem worker_goes_on (I : Threads T) (hrun : s.aborted = false) {i : Nat} (hq : s.queue i ≠ []) :
    ∃ l u, l.worker? = some i ∧ step I l s = some u := by
  cases hw : s.workerList[i]? with
  | none => exact absurd (by simp [Sys.queue, hw]) hq
  | some w =>
    obtain ⟨q, job⟩ := w
    obtain ⟨hjob, hqueue⟩ := Sys.getElem?_eq_job hw
    rw [hqueue] at hq
    cases q with
    | nil => exact absurd rfl hq
    | cons ev q =>
      cases job with
      | none => exact ⟨.front i, _, rfl, step_of_front hrun hw⟩
      | some j =>
        obtain ⟨ev', t⟩ := j
        cases hv : I.view t with
        | ret rtn => exact ⟨.pop i, _, rfl, step_of_pop hrun hw hv⟩
        | call c k =>
          by_cases hc : c = .assertFail
          · refine ⟨.abort i, { s with aborted := true }, rfl, ?_⟩
            simp [step, hrun, stepRunning, hjob, hv, hc, View.call?]
          · have ht : s.thread (.worker i) = some t := by simp [Sys.thread, hjob]
            obtain ⟨ch, u, hu⟩ := call_goes_on hrun ht hv hc
            exact ⟨_, u, rfl, hu⟩

end

section

variable {env : Env} {W : Int} {coll : List Doc} {os : Os} {ls ls' : List Label} {s t u : Sys (Act Int)} {ch : Choice}

/-- **Queues are worked off**: as long as no event is put, the workers make at most five steps for each event that
was queued, whatever their calls come to and whatever else happens; and a worker whose queue is not empty can go
on, unless the service has aborted. -/
theorem events_worked_off (h : Runs (step (service env)) (fun _ _ => True) (Sys.boot W coll os) ls s)
    (hrun : Runs (step (service env)) (fun _ => Label.quiet) s ls' u) :
    ls'.countP (fun l => l.worker?.isSome) ≤ 5 * s.backlog ∧
      ∀ i, u.aborted = false → u.queue i ≠ [] → ∃ l u', l.worker? = some i ∧ step (service env) l u = some u' := by
  refine ⟨?_, fun i ha hq => worker_goes_on _ ha hq⟩
  rw [← Sys.map_boot (Ctl.code env)] at h
  obtain ⟨a, rfl, ha⟩ := runs_points h
  obtain ⟨b, rfl, hb⟩ := runs_points hrun
  have hfits := fits_of_runs (fits_boot env W coll os) ha
  have hcount := hb.countP_le (fun t => t.conf.Fits env) (fun t => t.conf.work) (fun l => l.worker?.isSome) hfits
    (fun t l u ht _ hstep => ht.move (moves_of_step hstep))
    (fun t l u ht hl hstep => (work_of_step hstep ht hl).1)
    (fun t l u ht hl hstep => (work_of_step hstep ht hl).2)
  have hwork := work_le_backlog hfits
  rw [Sys.backlog_map]
  omega

/-- Two starts are queued. -/
def twoQueued : Sys (Act Int) :=
  (check (step (service sampleEnv)) (fun _ _ => True) [.put (startEvent [1]), .put (startEvent [2])]
    (Sys.boot 2 [] ⟨[], []⟩)).get (by decide)

/-- One of them has been worked off. -/
def oneLeft : Sys (Act Int) :=
  (check (step (service sampleEnv)) (fun _ l => l.worker?.isSome = true) (startLabels 0 10) twoQueued).get (by decide)

theorem events_worked_off_two :
    (startLabels 0 10).countP (fun l => l.worker?.isSome) ≤ 5 * twoQueued.backlog ∧
      ∀ i, oneLeft.aborted = false → oneLeft.queue i ≠ [] →
        ∃ l u', l.worker? = some i ∧ step (service sampleEnv) l oneLeft = some u' :=
  events_worked_off (runs_get _) ((runs_get _).mono fun _ _ => quiet_of_worker)

theorem scheduler_goes_on {s : Sys Ctl} (hfits : s.conf.Fits env) (hrun : s.aborted = false) (hs : s.sched ≠ none) :
    ∃ l u, l.passes = true ∧ step (points env) l s = some u := by
  obtain ⟨c, hc⟩ := Option.ne_none_iff_exists'.mp hs
  cases hv : c.view env with
  | ret rtn =>
    refine ⟨.detectEnd, { s with sched := none }, rfl, ?_⟩
    simp [step, hrun, stepRunning, hc, points, hv]
  | call op k =>
    have hop : op ≠ .assertFail := by
      rintro rfl
      have hassert := call?_assertFail (show (c.view env).call? = _ by rw [hv]; rfl)
      have hscans := hfits.sched c hc
      rw [hassert] at hscans
      exact hscans
    have ht : s.thread .sched = some c := hc
    obtain ⟨ch, u, hu⟩ := call_goes_on (I := points env) hrun ht hv hop
    exact ⟨_, u, rfl, hu⟩

theorem thread_of_find {s : Sys Ctl} (h : s.next (points env) .sched = some (.find .all)) :
    s.conf.thread .sched = some .detectFind := by
  obtain ⟨c, hc, hcall⟩ := Option.bind_eq_some_iff.mp h
  refine hc.trans (congrArg some ?_)
  cases c <;> cases hcall
  rfl

/-- **A pass of the scheduler terminates**: once it has read the records, it makes at most four calls for each of
them, whatever they come to and whatever the workers do meanwhile, and it can go on until it is over. -/
theorem pass_terminates (h : Runs (step (service env)) (fun _ _ => True) (Sys.boot W coll os) ls s)
    (hfind : s.next (service env) .sched = some (.find .all))
    (hstep : step (service env) (.call .sched ch) s = some t)
    (hrun : Runs (step (service env)) (fun _ l => l ≠ .detect) t ls' u) :
    ls'.countP Label.passes ≤ 4 * s.coll.length + 1 ∧
      (u.aborted = false → u.sched ≠ none → ∃ l u', l.passes = true ∧ step (service env) l u = some u') := by
  rw [← Sys.map_boot (Ctl.code env)] at h
  obtain ⟨a, rfl, ha⟩ := runs_points h
  rw [step_map (points_hom env)] at hstep
  obtain ⟨b, hb, rfl⟩ := Option.map_eq_some_iff.mp hstep
  obtain ⟨d, rfl, hd⟩ := runs_points hrun
  have hfits := fits_of_runs (fits_boot env W coll os) ha
  have hfits' := hfits.move (moves_of_step hb)
  rw [Sys.next_map (points_hom env).view] at hfind
  obtain ⟨hleft, hread⟩ := scanLeft_of_find hb hfits (thread_of_find hfind)
  have hcount := hd.countP_le (fun t => t.conf.Fits env ∧ t.conf.HasRead) (fun t => t.conf.scanLeft) Label.passes
    ⟨hfits', hread⟩
    (fun t l u ht hl hstep => ⟨ht.1.move (moves_of_step hstep), (moves_of_step hstep).hasRead ht.1 ht.2 hl⟩)
    (fun t l u ht hl hstep => ((moves_of_step hstep).scanLeft ht.1 ht.2 hl).1)
    (fun t l u ht hl hstep => ((moves_of_step hstep).scanLeft ht.1 ht.2 hl).2)
  refine ⟨by simp only [Sys.map_coll]; omega, fun hu hs => ?_⟩
  have hfits'' := fits_of_runs hfits' hd
  obtain ⟨l, e, hl, he⟩ := scheduler_goes_on hfits'' hu (by simpa using hs)
  exact ⟨l, e.map (Ctl.code env), hl, by rw [step_map (points_hom env), he]; rfl⟩

end

/-- The scheduler is about to read two records, of which the first one's process has ended. -/
def aboutToRead : Sys (Act Int) :=
  (check (step (service sampleEnv)) (fun _ _ => True) [.put (startEvent [3]), .detect]
    (Sys.boot 1 [sampleDoc [1] 10, sampleDoc [2] 20] ⟨[⟨20, none⟩], [10, 20]⟩)).get
    (by decide)

def justRead : Sys (Act Int) := (step (service sampleEnv) (.call .sched .ok) aboutToRead).get (by decide)

/-- The rest of the pass, which replaces the process while a worker starts another stream. -/
def passLabels : List Label :=
  [.call .sched .ok, .front 0, .call .sched .ok, .call (.worker 0) .ok, .call .sched (.pid 11),
    .call (.worker 0) (.pid 30), .call .sched .ok, .call (.worker 0) .ok, .call .sched .ok, .detectEnd]

def passEnd : Sys (Act Int) :=
  (check (step (service sampleEnv)) (fun _ l => l ≠ .detect) passLabels justRead).get (by decide)

theorem pass_terminates_two :
    passLabels.countP Label.passes ≤ 4 * aboutToRead.coll.length + 1 ∧
      (passEnd.aborted = false → passEnd.sched ≠ none →
        ∃ l u', l.passes = true ∧ step (service sampleEnv) l passEnd = some u') :=
  pass_terminates (runs_get _) (by decide) (Option.some_get _).symm (runs_get _)

end PullStream
