import PullStream.Service.Placement
/-!
# A stop on the wrong host

`remove_process` looks the stream up, removes its record, and kills the pid of the record, on the host that
has got the request. It does not look at the host that the record names. There the process of the stream
goes on without a record, and here the pid may be that of any process (`stop_on_wrong_host`). The record it
removes is the first one of the sid that has come back (`Doc.removedAs`), which need not be the one found.

`Cluster.handling` takes a worker through `remove_process` while the other threads of all hosts go on with
anything that leaves these streams and the recorded pid alone. What the stop does is right exactly when the
record found, at the outset, is one of the host itself, as far as the process tables can tell, and so is the
record that will be removed, if it is another one (`stop_acts_at_home_iff`).
-/

namespace PullStream

open Function Transition

variable {ι T : Type}

/-! ### A worker in `remove_process` -/

/-- The sid under which `remove_process` removes the record it has found. -/
def Doc.removedAs (env : Env) (d : Doc) : Str := cStr (env.shown "sid" d.sid)

/-- The sids whose records a stop can remove: its own, and the one that comes back of the record found. -/
def Cluster.Touches (env : Env) (k : Str) (c : Cluster ι T) (j : Str) : Prop :=
  j = k ∨ ∃ d, (recs k c.coll).head? = some d ∧ j = d.removedAs env

/-- A step of another thread that neither disturbs worker `w` of host `h`, nor changes the records of the
streams that the stop can touch, nor starts a process for them, nor brings up a process on `h` with the pid
recorded in `c₀`. -/
structure Cluster.LeavesAlone (env : Env) (h : ι) (w : Nat) (k : Str) (c₀ c c' : Cluster ι T) : Prop where
  thread : (c'.sys h).thread (.worker w) = (c.sys h).thread (.worker w)
  records : ∀ j, c₀.Touches env k j → recs j c'.coll = recs j c.coll
  live : ∀ j, c₀.Touches env k j → ∀ i, c'.live i j ⊆ c.live i j
  procs : ∀ d, (recs k c₀.coll).head? = some d →
    ∀ a ∈ (c'.host h).os.procs, a.pid = d.pid → a ∈ (c.host h).os.procs

/-- The worker goes on in its function, or another thread does something that leaves it and the streams
alone. -/
def Cluster.handling [DecidableEq ι] (env : ι → Env) (h : ι) (w : Nat) (k : Str)
    (c₀ c : Cluster ι (Act Int)) (l : ι × Label) : Prop :=
  (∃ ch, l = (h, .call (.worker w) ch)) ∨
    ∀ c', clusterStep (fun i => service (env i)) l c = some c' → c₀.LeavesAlone (env h) h w k c c'

/-- SIGKILL meets only processes that the host forked for the stream. -/
def Cluster.KillsOwn (I : ι → Threads T) (h : ι) (w : Nat) (k : Str) (c : Cluster ι T) : Prop :=
  ∀ p, (c.sys h).next (I h) (.worker w) = some (.kill p sigkill) →
    ∀ a ∈ (c.host h).os.procs, a.pid = p → a.runs k = true

/-- If a record is gone and the worker is not about to kill, then the process recorded in `c₀` is not
alive on the host that the record named. -/
def Cluster.RemovesKilled (env : ι → Env) (name : ι → Str) (h : ι) (w : Nat) (k : Str)
    (c₀ c : Cluster ι (Act Int)) : Prop :=
  (∀ p, (c.sys h).next (service (env h)) (.worker w) ≠ some (.kill p sigkill)) →
    ∀ j, c₀.Touches (env h) k j → recs j c.coll ≠ recs j c₀.coll →
      ∀ d, (recs j c₀.coll).head? = some d → ∀ i, d.host = cStr (name i) → d.pid ∉ c.live i j

/-- The record that a stop finds has not the pid of a process of the host other than those of the stream.
If it is also the record that will be removed, its process is not alive on another host, the one it names; if
another one will be removed, that one's process is not alive on the host it names. -/
def Cluster.OwnRecord (env : Env) (name : ι → Str) (h : ι) (k : Str) (c : Cluster ι T) : Prop :=
  ∀ d, (recs k c.coll).head? = some d →
    (∀ a ∈ (c.host h).os.procs, a.pid = d.pid → a.runs k = true) ∧
      ∀ e, (recs (d.removedAs env) c.coll).head? = some e →
        ∀ i, (d.removedAs env = k → i ≠ h) → e.host = cStr (name i) → e.pid ∉ c.live i (d.removedAs env)

/-- What a worker in `remove_process` has done to the streams so far. -/
def Ctl.Removing (env : Env) (h : ι) (k : Str) (c₀ c : Cluster ι T) : Ctl → Prop
  | .removeQuery p => cStr p.sid = k ∧ ∀ j, c₀.Touches env k j → recs j c.coll = recs j c₀.coll
  | .removeDelete p =>
    (∃ d, (recs k c₀.coll).head? = some d ∧ p = d.seen env.shown) ∧
      ∀ j, c₀.Touches env k j → recs j c.coll = recs j c₀.coll
  | .removeKill p =>
    ∃ d, (recs k c₀.coll).head? = some d ∧ p = d.seen env.shown ∧
      (d.removedAs env ≠ k → recs k c.coll = recs k c₀.coll)
  | .done _ =>
    (∀ j, c₀.Touches env k j → recs j c.coll = recs j c₀.coll) ∨
      ∃ d, (recs k c₀.coll).head? = some d ∧ d.pid ∉ c.live h k ∧
        (d.removedAs env ≠ k → recs k c.coll = recs k c₀.coll)
  | _ => False

/-- The worker is in `remove_process`, and meanwhile no process has come up that could be hit. -/
structure Removing (env : Env) (h : ι) (w : Nat) (k : Str) (c₀ c : Cluster ι (Act Int)) : Prop where
  thread : ∃ t : Ctl, (c.sys h).thread (.worker w) = some (t.code env) ∧ t.Removing env h k c₀ c
  live : ∀ j, c₀.Touches env k j → ∀ i, c.live i j ⊆ c₀.live i j
  procs : ∀ d, (recs k c₀.coll).head? = some d →
    ∀ a ∈ (c.host h).os.procs, a.pid = d.pid → a ∈ (c₀.host h).os.procs

theorem Cluster.touches_self (env : Env) (k : Str) (c : Cluster ι T) : c.Touches env k k := .inl rfl

namespace Removing

variable {env : ι → Env} {name : ι → Str} {h : ι} {w : Nat} {k : Str} {c₀ c c' : Cluster ι (Act Int)}

theorem other (hs : Removing (env h) h w k c₀ c) (hl : c₀.LeavesAlone (env h) h w k c c') :
    Removing (env h) h w k c₀ c' := by
  obtain ⟨t, ht, hphase⟩ := hs.thread
  have hrecs : ∀ {j}, c₀.Touches (env h) k j → recs j c.coll = recs j c₀.coll →
      recs j c'.coll = recs j c₀.coll := fun hj hsame => (hl.records _ hj).trans hsame
  have hself := c₀.touches_self (env h) k
  refine ⟨⟨t, hl.thread.trans ht, ?_⟩, fun j hj i p hp => hs.live j hj i (hl.live j hj i hp),
    fun d hd a ha hp => ?_⟩
  · cases t with
    | removeQuery p => exact ⟨hphase.1, fun j hj => hrecs hj (hphase.2 j hj)⟩
    | removeDelete p => exact ⟨hphase.1, fun j hj => hrecs hj (hphase.2 j hj)⟩
    | removeKill p =>
      obtain ⟨d, hd, hp, hsame⟩ := hphase
      exact ⟨d, hd, hp, fun hne => hrecs hself (hsame hne)⟩
    | done rtn =>
      refine hphase.imp (fun hsame j hj => hrecs hj (hsame j hj)) ?_
      rintro ⟨d, hd, hdead, hsame⟩
      exact ⟨d, hd, fun hp => hdead (hl.live k hself h hp), fun hne => hrecs hself (hsame hne)⟩
    | _ => exact hphase.elim
  · exact hs.procs d hd a (hl.procs d hd a ha hp) hp

theorem acts {st' : Store} {ch : Choice} {t t' : Ctl} (hphase : t.Removing (env h) h k c₀ c)
    (hacts : Acts (env h) (c.sys h).store t ch t' st') (hcoll : c'.coll = st'.coll)
    (hlive : c'.live h k = st'.os.live k) :
    t'.Removing (env h) h k c₀ c' ∧ ∀ a ∈ st'.os.procs, a ∈ (c.host h).os.procs := by
  have hself := c₀.touches_self (env h) k
  by_cases hdb : ch = .dbFail
  · subst hdb
    obtain ⟨op, k', x, hv, ha, rfl, rfl⟩ := hacts
    cases t with
    | removeQuery p =>
      cases hv
      cases ha
      exact ⟨.inl (hcoll ▸ hphase.2), fun _ => id⟩
    | removeDelete p =>
      cases hv
      cases ha
      obtain ⟨⟨d, hd, hp⟩, hsame⟩ := hphase
      exact ⟨⟨d, hd, hp, fun _ => hcoll ▸ hsame k hself⟩, fun _ => id⟩
    | removeKill p =>
      cases hv
      cases ha
    | done rtn => cases hv
    | _ => exact hphase.elim
  · have hparent : t.Parent := by
      cases t with
      | childExec => exact hphase.elim
      | _ => trivial
    have hstep := hacts.cstep hparent hdb
    cases t with
    | removeQuery p =>
      obtain ⟨rfl, hsame⟩ := hphase
      cases hstep with
      | removeFound hd => exact ⟨⟨⟨_, hsame _ hself ▸ hd, rfl⟩, hcoll ▸ hsame⟩, fun _ => id⟩
      | removeAbsent => exact ⟨.inl (hcoll ▸ hsame), fun _ => id⟩
    | removeDelete p =>
      obtain ⟨⟨d, hd, rfl⟩, hsame⟩ := hphase
      cases hstep with
      | delete =>
        refine ⟨⟨d, hd, rfl, fun hne => ?_⟩, fun _ => id⟩
        rw [hcoll]
        exact (recs_dropRec_ne (Ne.symm hne)).trans (hsame k hself)
    | removeKill p =>
      obtain ⟨d, hd, rfl, hsame⟩ := hphase
      cases hstep with
      | kill =>
        refine ⟨.inr ⟨d, hd, ?_, fun hne => hcoll ▸ hsame hne⟩, fun a ha => (List.mem_filter.mp ha).1⟩
        rw [hlive, live_drop]
        simp [Doc.seen]
    | done rtn => cases hstep
    | _ => exact hphase.elim

/-- **A call of the worker.** -/
theorem own [DecidableEq ι] (hs : Removing (env h) h w k c₀ c) {ch : Choice}
    (hstep : clusterStep (fun i => service (env i)) (h, .call (.worker w) ch) c = some c') :
    Removing (env h) h w k c₀ c' := by
  obtain ⟨t, ht, hphase⟩ := hs.thread
  obtain ⟨s, hcall, rfl⟩ := clusterStep_some hstep
  have hrun : (c.sys h).aborted = false := (step_running hcall nofun nofun).1
  obtain ⟨t', st', hacts, rfl⟩ := (step_call_code hrun ht).mp hcall
  have hself := Cluster.live_set_self c h (((c.sys h).setThread (.worker w) (t'.code (env h))).setStore st')
  obtain ⟨hphase', hprocs⟩ := acts hphase hacts rfl (hself k)
  refine ⟨⟨t', ?_, hphase'⟩, fun k' hk' j p hp => ?_, fun d hd a ha hp => ?_⟩
  · rw [Cluster.sys_set_self]
    exact (congrFun (Sys.thread_setThread ht) _).trans (update_self ..)
  · by_cases hj : j = h
    · subst hj
      rw [hself] at hp
      obtain ⟨a, ha, hruns, hpid⟩ := mem_live.mp hp
      exact hs.live k' hk' j (mem_live.mpr ⟨a, hprocs a ha, hruns, hpid⟩)
    · rw [Cluster.live_set_ne c hj] at hp
      exact hs.live k' hk' j hp
  · rw [Cluster.host_set_self] at ha
    exact hs.procs d hd a (hprocs a ha) hp

theorem stopsOwn (hs : Removing (env h) h w k c₀ c) (hown : c₀.OwnRecord (env h) name h k) :
    c.KillsOwn (fun i => service (env i)) h w k ∧ c₀.RemovesKilled env name h w k c := by
  obtain ⟨t, ht, hphase⟩ := hs.thread
  have hnext : (c.sys h).next (service (env h)) (.worker w) = (t.view (env h)).call? := by
    rw [Sys.next, ht, Option.bind_some]
    exact (points_hom (env h)).call? t
  refine ⟨fun p hp a ha hpid => ?_, fun hkill k' hk' hrecs e he j hj hlive => ?_⟩
  · rw [hnext] at hp
    cases t with
    | removeKill r =>
      obtain ⟨d, hd, rfl, -⟩ := hphase
      cases hp
      exact (hown d hd).1 a (hs.procs d hd a ha hpid) hpid
    | removeQuery | removeDelete | done => cases hp
    | _ => exact hphase.elim
  · rw [hnext] at hkill
    cases t with
    | removeQuery p => exact hrecs (hphase.2 k' hk')
    | removeDelete p => exact hrecs (hphase.2 k' hk')
    | removeKill p => exact hkill p.pid rfl
    | done rtn =>
      obtain ⟨d, hd, hdead, hsame⟩ := hphase.resolve_left fun hsame => hrecs (hsame k' hk')
      -- the sid of the removal is the only one whose records have changed
      obtain rfl : k' = d.removedAs (env h) := by
        rcases hk' with rfl | ⟨d', hd', rfl⟩
        · by_contra hne
          exact hrecs (hsame (Ne.symm hne))
        · obtain rfl : d = d' := Option.some.inj (hd.symm.trans hd')
          rfl
      refine (hown d hd).2 e he j (fun hk => ?_) hj (hs.live _ hk' j hlive)
      rintro rfl
      rw [hk] at he hlive
      obtain rfl : d = e := Option.some.inj (hd.symm.trans he)
      exact hdead hlive
    | _ => exact hphase.elim

end Removing

section

variable [DecidableEq ι] {env : ι → Env} {name : ι → Str} {h : ι} {w : Nat} {c : Cluster ι (Act Int)}

theorem clusterStep_code {t t' : Ctl} {ch : Choice} {st' : Store} (hrun : (c.host h).aborted = false)
    (ht : (c.sys h).thread (.worker w) = some (t.code (env h)))
    (hacts : Acts (env h) (c.sys h).store t ch t' st') :
    ∃ c', clusterStep (fun i => service (env i)) (h, .call (.worker w) ch) c = some c' ∧
      (c'.host h).aborted = false ∧ (c'.sys h).thread (.worker w) = some (t'.code (env h)) ∧
      (c'.sys h).store = st' ∧ ∀ j, j ≠ h → ∀ k, c'.live j k = c.live j k := by
  have hstep := (step_call_code hrun ht).mpr ⟨t', st', hacts, rfl⟩
  refine ⟨c.set h (((c.sys h).setThread (.worker w) (t'.code (env h))).setStore st'), ?_, ?_, ?_, ?_,
    fun j hj k => Cluster.live_set_ne c hj _ k⟩
  · rw [clusterStep, hstep]
    rfl
  · rw [Cluster.host_set_self]
    exact hrun
  · rw [Cluster.sys_set_self]
    exact (congrFun (Sys.thread_setThread ht) _).trans (update_self ..)
  · rw [Cluster.sys_set_self]
    rfl

theorem runs_removal {info : ProcessInfo} {d : Doc} (hrun : (c.host h).aborted = false)
    (hstop : (c.sys h).thread (.worker w) = some (ProcessCtl.removeProcess (env h) info))
    (hd : (recs (cStr info.sid) c.coll).head? = some d) :
    (∃ ls c₂, Runs (clusterStep fun i => service (env i)) (c.handling env h w (cStr info.sid)) c ls c₂ ∧
      (c₂.sys h).next (service (env h)) (.worker w) = some (.kill d.pid sigkill) ∧
      (c₂.host h).os = (c.host h).os) ∧
    ∃ ls c₃, Runs (clusterStep fun i => service (env i)) (c.handling env h w (cStr info.sid)) c ls c₃ ∧
      (∀ p, (c₃.sys h).next (service (env h)) (.worker w) ≠ some (.kill p sigkill)) ∧
      c₃.coll = dropRec (d.removedAs (env h)) c.coll ∧ (c₃.host h).os = (c.host h).os.drop d.pid ∧
      ∀ j, j ≠ h → ∀ k, c₃.live j k = c.live j k := by
  have hown : ∀ t ch, c.handling env h w (cStr info.sid) t (h, .call (.worker w) ch) := fun t ch => .inl ⟨ch, rfl⟩
  have hfind : Acts (env h) (c.sys h).store (.removeQuery info) .ok (.removeDelete (d.seen (env h).shown))
      (c.sys h).store := by
    refine ⟨_, _, (some (d.text (env h).shown), (c.sys h).store), rfl, ?_, rfl, rfl⟩
    simp only [answer, find?_sid]
    rw [show (recs (cStr info.sid) (c.sys h).store.coll).head? = some d from hd]
    rfl
  obtain ⟨c₁, hc₁, hrun₁, ht₁, hst₁, hlive₁⟩ := clusterStep_code hrun hstop hfind
  have hcoll₁ : (c₁.sys h).store = ⟨c.coll, (c.host h).os⟩ := hst₁
  have hremove : Acts (env h) (c₁.sys h).store (.removeDelete (d.seen (env h).shown)) .ok
      (.removeKill (d.seen (env h).shown)) ⟨dropRec (d.removedAs (env h)) c.coll, (c.host h).os⟩ := by
    rw [hcoll₁]
    exact ⟨_, _, (true, _), rfl, rfl, rfl, rfl⟩
  obtain ⟨c₂, hc₂, hrun₂, ht₂, hst₂, hlive₂⟩ := clusterStep_code hrun₁ ht₁ hremove
  have hkill : Acts (env h) (c₂.sys h).store (.removeKill (d.seen (env h).shown)) .ok (.done ErrorCode.errorOk)
      ⟨dropRec (d.removedAs (env h)) c.coll, (c.host h).os.drop d.pid⟩ := by
    rw [hst₂]
    exact ⟨_, _, (_, _), rfl, rfl, rfl, rfl⟩
  obtain ⟨c₃, hc₃, -, ht₃, hst₃, hlive₃⟩ := clusterStep_code hrun₂ ht₂ hkill
  have hruns := (Runs.single (hown c _) hc₁).snoc (hown c₁ _) hc₂
  refine ⟨⟨_, c₂, hruns, ?_, congrArg Store.os hst₂⟩, _, c₃, hruns.snoc (hown c₂ _) hc₃, fun p => ?_,
    congrArg Store.coll hst₃, congrArg Store.os hst₃, fun j hj k => ?_⟩
  · rw [Sys.next, ht₂]
    rfl
  · rw [Sys.next, ht₃]
    intro hnext
    cases hnext
  · rw [hlive₃ j hj, hlive₂ j hj, hlive₁ j hj]

/-- **A stop acts on its own host's process, and removes a record only with the process, exactly when the
records it finds and removes are ones of the host itself**, as far as the process tables can tell. -/
theorem stop_acts_at_home_iff {info : ProcessInfo} (hrun : (c.host h).aborted = false)
    (hstop : (c.sys h).thread (.worker w) = some (ProcessCtl.removeProcess (env h) info)) :
    (∀ ls c', Runs (clusterStep fun i => service (env i)) (c.handling env h w (cStr info.sid)) c ls c' →
        c'.KillsOwn (fun i => service (env i)) h w (cStr info.sid) ∧
          c.RemovesKilled env name h w (cStr info.sid) c') ↔
      c.OwnRecord (env h) name h (cStr info.sid) := by
  constructor
  · intro hall d hd
    obtain ⟨⟨_, c₂, hruns₂, hnext, hos₂⟩, _, c₃, hruns₃, hdone, hcoll₃, hos₃, hlive₃⟩ :=
      runs_removal hrun hstop hd
    have hown : ∀ a ∈ (c.host h).os.procs, a.pid = d.pid → a.runs (cStr info.sid) = true := fun a ha hp =>
      (hall _ _ hruns₂).1 d.pid hnext a (hos₂ ▸ ha) hp
    refine ⟨hown, fun e he i hi hhost hlive => ?_⟩
    refine (hall _ _ hruns₃).2 hdone (d.removedAs (env h)) (.inr ⟨d, hd, rfl⟩) ?_ e he i hhost ?_
    · rw [hcoll₃, recs_dropRec_self]
      intro htail
      cases hr : recs (d.removedAs (env h)) c.coll with
      | nil => simp [hr] at he
      | cons e rest =>
        rw [hr] at htail
        exact List.cons_ne_self e rest htail.symm
    · by_cases hih : i = h
      · -- the process killed is one of the stream, and so is not this one
        subst hih
        have hne : d.removedAs (env i) ≠ cStr info.sid := fun hk => hi hk rfl
        show e.pid ∈ (c₃.host i).os.live _
        rw [hos₃, live_drop]
        refine List.mem_filter.mpr ⟨hlive, ?_⟩
        obtain ⟨a, ha, hruns, hp⟩ := mem_live.mp hlive
        refine decide_eq_true fun heq => hne ?_
        obtain ⟨p, hp₁, hk₁⟩ := runs_iff.mp hruns
        obtain ⟨p', hp₂, hk₂⟩ := runs_iff.mp (hown a ha (hp.trans heq))
        obtain rfl : p = p' := Option.some.inj (hp₁.symm.trans hp₂)
        exact hk₁.symm.trans hk₂
      · rw [hlive₃ i hih]
        exact hlive
  · intro hown ls c' hruns
    refine Removing.stopsOwn (hruns.inv (Removing (env h) h w (cStr info.sid) c) ?_ ?_) hown
    · exact ⟨⟨.removeQuery info, hstop, rfl, fun _ _ => rfl⟩, fun _ _ _ _ => id, fun _ _ _ ha _ => ha⟩
    · rintro t l u hinv hl hstep
      rcases hl with ⟨ch, rfl⟩ | hother
      · exact hinv.own hstep
      · exact hinv.other (hother u hstep)

end

/-! ### A stop on the other host -/

/-- Host `1` starts a stream with process `10`, an unrelated process of host `0` has the same pid, and a
stop of the stream is put on host `0` and taken. -/
def strayStop : List (Fin 2 × Label) :=
  ((.put (startAt 1 [1]) :: startLabels 0 10).map fun l => (1, l)) ++
    [.appear 10, .put (stopEvent [1]), .front 0].map fun l => (0, l)

def strayStopTaken : Cluster (Fin 2) (Act Int) :=
  (check (clusterStep fun _ => service sampleEnv) (fun _ _ => True) strayStop twoHosts).get (by decide)

theorem strayStopTaken_stop : (strayStopTaken.sys 0).thread (.worker 0) =
    some (ProcessCtl.removeProcess sampleEnv (sampleInfo [1])) := rfl

/-- The first calls of the stop. -/
def strayCalls (n : Nat) : Option (Cluster (Fin 2) (Act Int)) :=
  check (clusterStep fun _ => service sampleEnv) (fun _ l => l = (0, .call (.worker 0) .ok))
    (List.replicate n (0, .call (.worker 0) .ok)) strayStopTaken

theorem runs_strayCalls {n : Nat} {c : Cluster (Fin 2) (Act Int)} (h : strayCalls n = some c) :
    Runs (clusterStep fun _ => service sampleEnv)
      (strayStopTaken.handling (fun _ => sampleEnv) 0 0 [1]) strayStopTaken
      (List.replicate n (0, .call (.worker 0) .ok)) c :=
  (runs_of_check h).mono fun _ _ hl => .inl ⟨.ok, hl⟩

theorem stop_on_wrong_host :
    (¬ ∀ (n : Nat) (env : Fin n → Env) (W : Fin n → Nat) (ls₀ ls : List (Fin n × Label))
      (c c' : Cluster (Fin n) (Act Int)) (h : Fin n) (w : Nat) (info : ProcessInfo),
      Runs (clusterStep fun i => service (env i)) (fun _ _ => True)
        (Cluster.boot (fun i => W i) [] fun _ => ⟨[], []⟩) ls₀ c →
      (c.host h).aborted = false →
      (c.sys h).thread (.worker w) = some (ProcessCtl.removeProcess (env h) info) →
      Runs (clusterStep fun i => service (env i))
        (c.handling env h w (cStr info.sid)) c ls c' →
      c'.KillsOwn (fun i => service (env i)) h w (cStr info.sid)) ∧
    ¬ ∀ (n : Nat) (env : Fin n → Env) (name : Fin n → Str) (W : Fin n → Nat) (ls₀ ls : List (Fin n × Label))
      (c c' : Cluster (Fin n) (Act Int)) (h : Fin n) (w : Nat) (info : ProcessInfo),
      Injective (fun i => cStr (name i)) →
      Runs (clusterStep fun i => service (env i)) (fun _ _ => True)
        (Cluster.boot (fun i => W i) [] fun _ => ⟨[], []⟩) ls₀ c →
      (c.host h).aborted = false →
      (c.sys h).thread (.worker w) = some (ProcessCtl.removeProcess (env h) info) →
      Runs (clusterStep fun i => service (env i))
        (c.handling env h w (cStr info.sid)) c ls c' →
      c.RemovesKilled env name h w (cStr info.sid) c' := by
  constructor
  · intro h
    have hkills := h 2 (fun _ => sampleEnv) (fun _ => 1) strayStop _ strayStopTaken
      ((strayCalls 2).get (by decide)) 0 0 (sampleInfo [1]) (runs_get _) rfl strayStopTaken_stop
      (runs_strayCalls (Option.some_get _).symm) 10 (by decide) ⟨10, none⟩ (by decide) rfl
    exact absurd hkills (by decide)
  · intro h
    have hnext : ∀ p, (((strayCalls 3).get (by decide)).sys 0).next (service sampleEnv) (.worker 0) ≠
        some (.kill p sigkill) := fun p => nofun
    have hgone := h 2 (fun _ => sampleEnv) twoNames (fun _ => 1) strayStop _ strayStopTaken
      ((strayCalls 3).get (by decide)) 0 0 (sampleInfo [1]) (by decide) (runs_get _) rfl strayStopTaken_stop
      (runs_strayCalls (Option.some_get _).symm) hnext [1] (.inl rfl) (by decide)
      (ServerBiz.processDoc sampleEnv { (startAt 1 [1]).process with pid := 10 }) (by decide) 1 (by decide)
    exact absurd (by decide) hgone

/-- The stop is put on host `1` instead. -/
def homeStop : List (Fin 2 × Label) :=
  ((.put (startAt 1 [1]) :: startLabels 0 10).map fun l => (1, l)) ++
    [(0, .appear 10), (1, .put (stopEvent [1])), (1, .front 0)]

def homeStopTaken : Cluster (Fin 2) (Act Int) :=
  (check (clusterStep fun _ => service sampleEnv) (fun _ _ => True) homeStop twoHosts).get (by decide)

theorem homeStopTaken_stop : (homeStopTaken.sys 1).thread (.worker 0) =
    some (ProcessCtl.removeProcess sampleEnv (sampleInfo [1])) := rfl

theorem homeStopTaken_own : homeStopTaken.OwnRecord sampleEnv twoNames 1 [1] := by
  intro d hd
  have hrec : (recs [1] homeStopTaken.coll).head? =
      some (ServerBiz.processDoc sampleEnv { (startAt 1 [1]).process with pid := 10 }) := by decide
  obtain rfl := Option.some.inj (hrec.symm.trans hd)
  decide

theorem stop_acts_at_home :
    homeStopTaken.OwnRecord sampleEnv twoNames 1 [1] ∧
    ∀ ls c', Runs (clusterStep fun _ => service sampleEnv)
      (homeStopTaken.handling (fun _ => sampleEnv) 1 0 [1]) homeStopTaken ls c' →
      c'.KillsOwn (fun _ => service sampleEnv) 1 0 [1] ∧
        homeStopTaken.RemovesKilled (fun _ => sampleEnv) twoNames 1 0 [1] c' :=
  ⟨homeStopTaken_own, (@stop_acts_at_home_iff (Fin 2) _ (fun _ => sampleEnv) twoNames 1 0 homeStopTaken
    (sampleInfo [1]) rfl homeStopTaken_stop).mpr homeStopTaken_own⟩

end PullStream
