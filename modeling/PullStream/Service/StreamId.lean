import PullStream.Control.Conf
/-!
# At most one record for each sid

`spawn_process` looks for a record, forks, and inserts one, in three separate steps, and `put_data` gives
two events of one sid to two workers. When both workers look before either inserts, both insert
(`stream_ids_repeated`).

A worker is *spawning* a sid between its look and its insert. If no worker finds a sid free while another
one is spawning it (`Sys.checksAlone`), then in every run, whatever the scheduler, the stops and the
reloads do, no sid has two records (`stream_ids_unique`). The invariant behind it is `SidInv`: the sid of
a worker that is spawning has no record, and the worker is the only one spawning it.
-/

namespace PullStream

open Function Transition Family

/-- No sid has two records. -/
def UniqueSids (coll : List Doc) : Prop := ∀ k, (recs k coll).length ≤ 1

theorem uniqueSids_nil : UniqueSids [] := fun _ => Nat.zero_le _

/-- The calls of `spawn_process` after its look. -/
def Call.spawns : Call → Bool
  | .fork _ | .insert _ => true
  | _ => false

section

variable {T : Type}

/-- Worker `i` is in `spawn_process` for the sid, past the look and before the insert. -/
def Sys.spawning (I : Threads T) (s : Sys T) (k : Str) (i : Nat) : Bool :=
  match s.job i with
  | some (ev, t) => ev.type = .createProcess && ev.key = k && (I.view t).call?.any Call.spawns
  | none => false

/-- A worker that looks for a record in `spawn_process` and finds none is the only one spawning the sid. -/
def Sys.checksAlone (I : Threads T) (s : Sys T) : Label → Bool
  | .call (.worker i) _ =>
    match s.job i with
    | some (ev, t) =>
      decide (ev.type = .createProcess → (I.view t).call? = some (.findOne (.sid ev.key)) →
        recs ev.key s.coll = [] → ∀ j < s.workerList.length, s.spawning I ev.key j = false)
    | none => true
  | _ => true

end

/-! ### The invariant -/

/-- A point of `spawn_process` for the sid, past the look and before the insert. -/
def Ctl.Spawning (k : Str) : Ctl → Prop
  | .spawnFork p | .spawnInsert p => cStr p.sid = k
  | _ => False

structure SidInv (v : Conf) : Prop where
  unique : UniqueSids v.store.coll
  absent : ∀ τ c k, v.thread τ = some c → c.Spawning k → recs k v.store.coll = []
  alone : ∀ τ σ c d k, v.thread τ = some c → v.thread σ = some d → c.Spawning k → d.Spawning k → τ = σ

theorem CStep.recs_le {env : Env} {st st' : Store} {c c' : Ctl} {ch : Choice}
    (h : CStep env st c ch c' st') (hc : ∀ p, c ≠ .spawnInsert p) (k : Str) :
    (recs k st'.coll).length ≤ (recs k st.coll).length := by
  cases h with
  | insert => exact absurd rfl (hc _)
  | @delete p =>
    by_cases hk : k = cStr p.sid
    · subst hk
      simp
    · simp [recs_dropRec_ne hk]
  | @reloadUpdate p | @detectUpdate p rest =>
    by_cases hk : k = cStr p.sid
    · subst hk
      simp
    · simp [recs_setPid_ne hk]
  | _ => exact le_rfl

theorem not_spawning_detectNext (k : Str) (l : List ProcessInfo) : ¬ (Ctl.detectNext l).Spawning k := by
  cases l <;> exact id

theorem CStep.spawning {env : Env} {st st' : Store} {c c' : Ctl} {ch : Choice} {k : Str}
    (h : CStep env st c ch c' st') (hc' : c'.Spawning k) :
    c.Spawning k ∨ (∃ p, c = .spawnQuery p ∧ cStr p.sid = k) ∧ recs k st.coll = [] := by
  cases h with
  | @spawnAbsent p habs =>
    have hk : cStr p.sid = k := hc'
    subst hk
    exact .inr ⟨⟨p, rfl, rfl⟩, habs⟩
  | spawnForked => exact .inl hc'
  | snapshot | probeAlive | lookupAbsent | detectForkFailed | detectUpdate =>
    exact (not_spawning_detectNext k _ hc').elim
  | _ => exact hc'.elim

namespace SidInv

variable {env : Env} {v v' : Conf} {l : Label}

theorem insert (h : SidInv v) {τ : Tid} {p : ProcessInfo}
    (ht : v.thread τ = some (.spawnInsert p)) :
    SidInv { v with
      thread := update v.thread τ (some (.done ErrorCode.errorOk))
      store := ⟨v.store.coll ++ [ServerBiz.processDoc env p], v.store.os⟩ } := by
  have hnew : ∀ k, recs k (v.store.coll ++ [ServerBiz.processDoc env p]) =
      if cStr p.sid = k then recs k v.store.coll ++ [ServerBiz.processDoc env p]
      else recs k v.store.coll := fun k => recs_insert
  refine ⟨fun k => ?_, fun σ d k hd hk => ?_, fun σ ρ d e k hd he hdk hek => ?_⟩
  · show (recs k (v.store.coll ++ _)).length ≤ 1
    rw [hnew]
    split
    · rw [h.absent τ _ k ht ‹_›]
      exact le_rfl
    · exact h.unique k
  · rcases of_update_some hd with ⟨-, rfl⟩ | ⟨hne, hd⟩
    · exact hk.elim
    · show recs k (v.store.coll ++ _) = []
      have hp : cStr p.sid ≠ k := fun hp => hne (h.alone σ τ d _ k hd ht hk hp)
      rw [hnew, if_neg hp]
      exact h.absent σ d k hd hk
  · rcases of_update_some hd with ⟨-, rfl⟩ | ⟨-, hd⟩
    · exact hdk.elim
    rcases of_update_some he with ⟨-, rfl⟩ | ⟨-, he⟩
    · exact hek.elim
    exact h.alone σ ρ d e k hd he hdk hek

theorem call (h : SidInv v) {τ : Tid} {c c' : Ctl} {ch : Choice} {st' : Store}
    (ht : v.thread τ = some c) (hstep : CStep env v.store c ch c' st') (hc : ∀ p, c ≠ .spawnInsert p)
    (halone : ∀ p, c = .spawnQuery p → recs (cStr p.sid) v.store.coll = [] →
      ∀ σ d, v.thread σ = some d → ¬ d.Spawning (cStr p.sid)) :
    SidInv { v with thread := update v.thread τ (some c'), store := st' } := by
  have hle := hstep.recs_le hc
  have habsent : ∀ σ d k, update v.thread τ (some c') σ = some d → d.Spawning k →
      recs k v.store.coll = [] := by
    intro σ d k hd hk
    rcases of_update_some hd with ⟨-, rfl⟩ | ⟨-, hd⟩
    · rcases hstep.spawning hk with hk | ⟨-, hempty⟩
      · exact h.absent τ c k ht hk
      · exact hempty
    · exact h.absent σ d k hd hk
  have hother : ∀ σ d k, σ ≠ τ → v.thread σ = some d → d.Spawning k → ¬ c'.Spawning k := by
    intro σ d k hne hd hdk hk
    rcases hstep.spawning hk with hk | ⟨⟨p, rfl, rfl⟩, hempty⟩
    · exact hne (h.alone σ τ d c k hd ht hdk hk)
    · exact halone p rfl hempty σ d hd hdk
  refine ⟨fun k => (hle k).trans (h.unique k), fun σ d k hd hk => ?_, fun σ ρ d e k hd he hdk hek => ?_⟩
  · have hlen := hle k
    rw [habsent σ d k hd hk] at hlen
    exact List.eq_nil_of_length_eq_zero (Nat.le_zero.mp hlen)
  · rcases of_update_some hd with ⟨hσ, rfl⟩ | ⟨hσ, hd₀⟩
    · rcases of_update_some he with ⟨hρ, -⟩ | ⟨hρ, he₀⟩
      · exact hσ.trans hρ.symm
      · exact (hother ρ e k hρ he₀ hek hdk).elim
    · rcases of_update_some he with ⟨-, rfl⟩ | ⟨hρ, he₀⟩
      · exact (hother σ d k hσ hd₀ hdk hek).elim
      · exact h.alone σ ρ d e k hd₀ he₀ hdk hek

theorem frame (h : SidInv v) (hcoll : v'.store.coll = v.store.coll)
    (hth : ∀ τ c k, v'.thread τ = some c → c.Spawning k → v.thread τ = some c) : SidInv v' := by
  refine ⟨by rw [hcoll]; exact h.unique, fun τ c k hc hk => ?_, fun τ σ c d k hc hd hck hdk => ?_⟩
  · rw [hcoll]
    exact h.absent τ c k (hth τ c k hc hk) hk
  · exact h.alone τ σ c d k (hth τ c k hc hck) (hth σ d k hd hdk) hck hdk

theorem move (h : SidInv v) (hfits : v.Fits env) (hm : Moves env v l v') (hdb : l.dbOk = true)
    (halone : ∀ τ ch p, l = .call τ ch → v.thread τ = some (.spawnQuery p) →
      recs (cStr p.sid) v.store.coll = [] → ∀ σ d, v.thread σ = some d → ¬ d.Spawning (cStr p.sid)) :
    SidInv v' := by
  cases hm with
  | call ht hc =>
    rename_i τ ch c c' st'
    have hstep := hfits.cstep ht hdb hc
    by_cases hins : ∃ p, c = .spawnInsert p
    · obtain ⟨p, rfl⟩ := hins
      cases hstep
      exact h.insert ht
    · refine h.call ht hstep (fun p hp => hins ⟨p, hp⟩) fun p hp => ?_
      subst hp
      exact halone τ ch p rfl ht
  | front hidle hq =>
    rename_i i ev q
    refine h.frame rfl fun τ c k hc hk => ?_
    rcases of_update_some hc with ⟨-, rfl⟩ | ⟨-, hc⟩
    · unfold Ctl.start at hk
      cases hty : ev.type <;> rw [hty] at hk <;> exact hk.elim
    · exact hc
  | pop | detectEnd => exact h.frame rfl fun τ c k hc _ => (of_update_none hc).2
  | detect =>
    refine h.frame rfl fun τ c k hc hk => ?_
    rcases of_update_some hc with ⟨-, rfl⟩ | ⟨-, hc⟩
    · exact hk.elim
    · exact hc
  | put | abort | die | appear => exact h.frame rfl fun τ c k hc _ => hc

end SidInv

/-! ### Runs -/

theorem spawning_of_thread (env : Env) {s : Sys Ctl} (hfits : s.conf.Fits env) {τ : Tid} {c : Ctl} {k : Str}
    (ht : s.thread τ = some c) (hc : c.Spawning k) :
    ∃ i < s.workerList.length, τ = .worker i ∧ s.spawning (points env) k i = true := by
  cases τ with
  | sched =>
    have hscan := hfits.sched c ht
    cases c <;> first | exact hscan.elim | exact hc.elim
  | worker i =>
    obtain ⟨ev, hev, hs⟩ := hfits.worker i c ht
    have hjob := job_iff.mpr ⟨hev, ht⟩
    have hi := (List.getElem?_eq_some_iff.mp (Sys.getElem?_of_job hjob)).1
    refine ⟨i, hi, rfl, ?_⟩
    rw [Sys.spawning, hjob]
    cases c with
    | spawnFork p | spawnInsert p =>
      obtain ⟨hty, hkey⟩ := hs
      have hk : cStr p.sid = k := hc
      simp [hty, ← hkey, hk, points, Ctl.view, View.call?, Call.spawns]
    | _ => exact hc.elim

theorem alone_of_checksAlone {env : Env} {s : Sys Ctl} {l : Label} (hfits : s.conf.Fits env)
    (h : s.checksAlone (points env) l = true) {τ : Tid} {ch : Choice} {p : ProcessInfo}
    (hl : l = .call τ ch) (ht : s.thread τ = some (.spawnQuery p))
    (habs : recs (cStr p.sid) s.coll = []) :
    ∀ σ d, s.thread σ = some d → ¬ d.Spawning (cStr p.sid) := by
  subst hl
  cases τ with
  | sched => exact (hfits.sched _ ht).elim
  | worker i =>
    obtain ⟨ev, hev, hty, hkey⟩ := hfits.worker i _ ht
    have hjob := job_iff.mpr ⟨hev, ht⟩
    intro σ d hd hk
    obtain ⟨j, hj, -, hsp⟩ := spawning_of_thread env hfits hd hk
    simp only [Sys.checksAlone, hjob, decide_eq_true_eq] at h
    rw [← hkey] at h
    have hnot := h hty rfl habs j hj
    rw [hsp] at hnot
    cases hnot

theorem checksAlone_map {env : Env} (s : Sys Ctl) (l : Label) :
    (s.map (Ctl.code env)).checksAlone (service env) l = s.checksAlone (points env) l := by
  have hview := (points_hom env).call?
  have hsp : ∀ k i, (s.map (Ctl.code env)).spawning (service env) k i = s.spawning (points env) k i := by
    intro k i
    rw [Sys.spawning, Sys.map_job, Sys.spawning]
    cases s.job i <;> simp [hview]
  have hlen : (s.map (Ctl.code env)).workerList.length = s.workerList.length := List.length_map _
  cases l with
  | call τ ch =>
    cases τ with
    | worker i =>
      rw [Sys.checksAlone, Sys.map_job, Sys.checksAlone]
      cases s.job i <;> simp [hview, hsp, hlen]
    | sched => rfl
  | _ => rfl

/-- **Unless a worker finds a sid free while another one is spawning it, no sid ever has two records.** -/
theorem stream_ids_unique {env : Env} {W : Nat} {coll : List Doc} {os : Os} {ls : List Label}
    {s : Sys (Act Int)} (hcoll : UniqueSids coll)
    (h : Runs (step (service env)) (fun t l => l.dbOk = true ∧ t.checksAlone (service env) l = true)
      (Sys.boot W coll os) ls s) : UniqueSids s.coll := by
  rw [← Sys.map_boot (Ctl.code env)] at h
  obtain ⟨u, rfl, hrun⟩ := runs_points h
  have hboot : SidInv (Sys.boot W coll os : Sys Ctl).conf := ⟨hcoll, by simp, by simp⟩
  refine (hrun.inv (fun t => t.conf.Fits env ∧ SidInv t.conf) ⟨fits_boot .., hboot⟩ ?_).2.unique
  intro t l u ⟨hfits, hinv⟩ ⟨hdb, hcheck⟩ hstep
  rw [checksAlone_map] at hcheck
  have hm := moves_of_step hstep
  exact ⟨hfits.move hm, hinv.move hfits hm hdb fun τ ch p => alone_of_checksAlone hfits hcheck⟩

/-! ### Two starts of one stream -/

/-- Two workers take a start of the same sid each, both look, both fork, both insert. -/
def racingStarts : List Label :=
  [.put (startEvent [1]), .put (startEvent [1]), .front 0, .front 1,
    .call (.worker 0) .ok, .call (.worker 1) .ok, .call (.worker 0) (.pid 10), .call (.worker 1) (.pid 11),
    .call (.worker 0) .ok, .call (.worker 1) .ok]

def racingStartsEnd : Sys (Act Int) :=
  (check (step (service sampleEnv)) (fun _ l => l.dbOk = true) racingStarts
    (Sys.boot (2 : Nat) [] ⟨[], []⟩)).get (by decide)

theorem stream_ids_repeated :
    ¬ ∀ (env : Env) (W : Nat) (ls : List Label) (s : Sys (Act Int)), 1 ≤ W →
      Runs (step (service env)) (fun _ l => l.dbOk = true) (Sys.boot W [] ⟨[], []⟩) ls s →
      UniqueSids s.coll := by
  intro h
  have htwo := h sampleEnv 2 racingStarts racingStartsEnd (by decide) (runs_get _) [1]
  revert htwo
  decide

/-- The second worker looks after the first one has inserted. -/
def orderlyStarts : List Label :=
  [.put (startEvent [1]), .put (startEvent [1])] ++ startLabels 0 10 ++ [.front 1, .call (.worker 1) .ok]

theorem stream_ids_unique_orderly :
    UniqueSids ((check (step (service sampleEnv))
      (fun t l => l.dbOk = true ∧ t.checksAlone (service sampleEnv) l = true) orderlyStarts
      (Sys.boot (2 : Nat) [] ⟨[], []⟩)).get (by decide)).coll :=
  stream_ids_unique uniqueSids_nil (runs_get _)

end PullStream
