import PullStream.Service.Pids
import PullStream.Control.Intact
/-!
# The scheduler and streams that did not crash

`remove_process` removes the record before it kills the process, and `process_alive_detect` looks a dead
pid up once more before it spawns. On one host, when forks return fresh pids and the processes the
service forked die only by the kill of `remove_process`, the two together mean that the second lookup
never finds a record (`scheduler_never_respawns`), whatever sids are started, stopped and reloaded, how
often, and in which interleaving. The sids have to come back from the store as they are: a stop removes the
record of the sid that has come back, and kills the process of the record it has found
(`scheduler_respawns_stopped`).

The invariant is `Calm`. Every pid in a record, or on its way into one, is the pid of a live process.
Between the look and the removal of a `remove_process`, no record but the first one of the sid has the
pid that will be killed (`AtHead`); after the removal none has it.
-/

namespace PullStream

open Function Transition Family

/-- Of all records only the first one of the sid can have the pid. -/
def AtHead (k : Str) (q : Int) (coll : List Doc) : Prop :=
  ∀ d ∈ coll, d.pid = q → (recs k coll).head? = some d

/-! ### The first record of a sid -/

section

variable {k j : Str} {p q : Int} {coll : List Doc} {d : Doc}

theorem nodup_recs (hnd : (coll.map (·.pid)).Nodup) : ((recs k coll).map (·.pid)).Nodup :=
  hnd.sublist ((Keyed.slot_sublist _ k coll).map _)

theorem not_mem_tail (hnd : (coll.map (·.pid)).Nodup) (hd : (recs k coll).head? = some d) :
    ∀ e ∈ (recs k coll).tail, e.pid ≠ d.pid := by
  have hnd := nodup_recs (k := k) hnd
  cases hr : recs k coll with
  | nil => simp
  | cons a rest =>
    rw [hr] at hd hnd
    obtain rfl : a = d := Option.some.inj hd
    rw [List.map_cons, List.nodup_cons] at hnd
    exact fun e he hp => hnd.1 (List.mem_map.mpr ⟨e, he, hp⟩)

theorem atHead_of_head (hnd : (coll.map (·.pid)).Nodup) (hd : (recs k coll).head? = some d) :
    AtHead k d.pid coll := by
  intro e he hp
  have heq : e = d := List.inj_on_of_nodup_map hnd he (recs_head hd).1 hp
  rw [heq, hd]

theorem AtHead.insert (h : AtHead k q coll) (hd : d.pid ≠ q) : AtHead k q (coll ++ [d]) := by
  intro e he hp
  rcases List.mem_append.mp he with he | he
  · rw [recs_insert]
    split
    · rw [List.head?_append, h e he hp]
      rfl
    · exact h e he hp
  · exact absurd (List.mem_singleton.mp he ▸ hp) hd

theorem AtHead.setPid (h : AtHead k q coll) (hnd : (coll.map (·.pid)).Nodup) (hp : p ≠ q) :
    AtHead k q (setPid j p coll) := by
  intro e he heq
  rcases mem_setPid he with hmem | ⟨-, hpid⟩
  · have hhead := h e hmem heq
    by_cases hj : k = j
    · subst hj
      have hk := (recs_head hhead).2
      have hrec : e ∈ recs k (PullStream.setPid k p coll) := mem_recs.mpr ⟨he, hk⟩
      have htail := not_mem_tail hnd hhead
      rw [recs_setPid_self] at hrec
      cases hr : recs k coll with
      | nil => simp [hr] at hhead
      | cons a rest =>
        rw [hr] at hrec htail
        rcases List.mem_cons.mp hrec with rfl | hrest
        · exact absurd heq hp
        · exact absurd rfl (htail e hrest)
    · rwa [recs_setPid_ne hj]
  · exact absurd (hpid.symm.trans heq) hp

theorem AtHead.not_mem_dropRec (h : AtHead k q coll) (hnd : (coll.map (·.pid)).Nodup) :
    ∀ d ∈ dropRec k coll, d.pid ≠ q := by
  intro e he heq
  have hhead := h e (mem_of_mem_dropRec he) heq
  have hk := (recs_head hhead).2
  have hrec : e ∈ recs k (PullStream.dropRec k coll) := mem_recs.mpr ⟨he, hk⟩
  rw [recs_dropRec_self] at hrec
  exact not_mem_tail hnd hhead e hrec rfl

theorem AtHead.dropRec (h : AtHead k q coll) (hnd : (coll.map (·.pid)).Nodup) :
    AtHead k q (dropRec j coll) := by
  intro e he heq
  by_cases hj : k = j
  · subst hj
    exact absurd heq (h.not_mem_dropRec hnd e he)
  · rw [recs_dropRec_ne hj]
    exact h e (mem_of_mem_dropRec he) heq

end

theorem CStep.atHead {env : Env} {st st' : Store} {c c' : Ctl} {ch : Choice} {k : Str} {q : Int}
    (hstep : CStep env st c ch c' st') (hnd : (st.coll.map (·.pid)).Nodup) (hc : c.pending ≠ some q)
    (h : AtHead k q st.coll) : AtHead k q st'.coll := by
  cases hstep with
  | insert => exact h.insert fun hp => hc (congrArg some hp)
  | delete => exact h.dropRec hnd
  | reloadUpdate | detectUpdate => exact h.setPid hnd fun hp => hc (congrArg some hp)
  | _ => exact h

/-! ### The invariant -/

/-- What a thread may count on while nothing crashes. -/
def Ctl.Calm (v : Conf) : Ctl → Prop
  | .removeDelete p =>
    p.pid ∈ v.store.os.used ∧ (∀ σ, v.ledger.claim σ ≠ some p.pid) ∧
      AtHead (cStr p.sid) p.pid v.store.coll
  | .removeKill p => p.pid ∈ v.store.os.used ∧ ¬ v.Held p.pid
  | .detectLookup r _ => r.pid ∈ v.store.os.used ∧ ¬ v.Held r.pid
  | .detectFork _ _ | .detectUpdate _ _ => False
  | _ => True

structure Calm (env : Env) (v : Conf) : Prop where
  ledgered : v.Ledgered env
  spawned : ∀ p, v.Held p → v.store.os.Spawned p
  thread : ∀ τ c, v.thread τ = some c → c.Calm v

theorem Ctl.calm_detectNext (v : Conf) (l : List ProcessInfo) : (detectNext l).Calm v := by
  cases l <;> trivial

theorem alive_of_spawned {os : Os} {p : Int} (h : os.Spawned p) : os.alive p = true := by
  obtain ⟨a, ha, hp, -⟩ := h
  exact alive_iff.mpr ⟨a, ha, hp⟩

theorem spawned_drop {os : Os} {p q : Int} (h : os.Spawned q) (hne : q ≠ p) : (os.drop p).Spawned q := by
  obtain ⟨a, ha, rfl, ho⟩ := h
  exact ⟨a, List.mem_filter.mpr ⟨ha, by simpa using hne⟩, rfl, ho⟩

theorem spawned_add {os : Os} {a : Proc} {q : Int} (h : os.Spawned q) : (os.add a).Spawned q := by
  obtain ⟨b, hb, hq, ho⟩ := h
  exact ⟨b, List.mem_append_left _ hb, hq, ho⟩

theorem CStep.spawned {env : Env} {st st' : Store} {c c' : Ctl} {ch : Choice} {q : Int}
    (h : CStep env st c ch c' st') (hq : st.os.Spawned q) :
    st'.os.Spawned q ∨ ∃ p, c = .removeKill p ∧ p.pid = q := by
  cases h with
  | @kill p =>
    by_cases hp : q = p.pid
    · exact .inr ⟨p, rfl, hp.symm⟩
    · exact .inl (spawned_drop hq hp)
  | spawnForked | reloadForked | detectForked => exact .inl (spawned_add hq)
  | _ => exact .inl hq

theorem CStep.spawned_new {env : Env} {st st' : Store} {c c' : Ctl} {q : Int}
    (h : CStep env st c (.pid q) c' st') : st'.os.Spawned q := by
  cases h with
  | _ => exact ⟨_, List.mem_append_right _ (List.mem_singleton_self _), rfl, rfl⟩

namespace Calm

variable {env : Env} {v v' : Conf} {l : Label}

theorem frame (h : Calm env v) (hm : Moves env v l v') (hdb : l.dbOk = true)
    (hfresh : ∀ p, l.claimed = some p → p ∉ v.store.os.used)
    (hused : ∀ p ∈ v.store.os.used, p ∈ v'.store.os.used)
    (hhead : ∀ k q, (∀ σ, v.ledger.claim σ ≠ some q) → AtHead k q v.store.coll →
      AtHead k q v'.store.coll) {c : Ctl} (hc : c.Calm v) : c.Calm v' := by
  have hchange := change_of_moves h.ledgered.fits hm hdb
  cases c with
  | removeDelete p =>
    obtain ⟨hp, hclaim, hat⟩ := hc
    refine ⟨hused _ hp, fun σ hσ => ?_, hhead _ _ hclaim hat⟩
    rcases Ledger.claim_of_change hchange hσ with hσ | hl
    · exact hclaim σ hσ
    · exact hfresh _ hl hp
  | removeKill p => exact ⟨hused _ hc.1, h.ledgered.not_held hm hdb hfresh hc.1 hc.2⟩
  | detectLookup r rest => exact ⟨hused _ hc.1, h.ledgered.not_held hm hdb hfresh hc.1 hc.2⟩
  | detectFork | detectUpdate => exact hc.elim
  | _ => trivial

theorem own (hsid : env.KeepsSids) (h : Calm env v) {τ : Tid} {ch : Choice} {c c' : Ctl} {st' : Store}
    (ht : v.thread τ = some c) (hstep : CStep env v.store c ch c' st') :
    c'.Calm { v with thread := update v.thread τ (some c'), store := st' } := by
  have hnd : (v.store.coll.map (·.pid)).Nodup := h.ledgered.distinct.nodup
  have hc := h.thread τ c ht
  have hchange := change_of_cstep ht hstep
  have hclaim := fun σ a => Ledger.claim_of_change (i := σ) (a := a) hchange
  have hheld := fun a => Ledger.held_of_change (a := a) hchange
  cases hstep with
  | @removeFound p d hd =>
    obtain ⟨hmem, hkey⟩ := recs_head hd
    refine ⟨h.ledgered.covered.coll d hmem, fun σ hσ => ?_, ?_⟩
    · have hold := (hclaim σ _ hσ).resolve_right nofun
      exact h.ledgered.distinct.notBooked σ _ hold (List.mem_map.mpr ⟨d, hmem, rfl⟩)
    · have hhead : cStr (env.shown "sid" d.sid) = cStr p.sid := by
        rw [hsid, hkey, cStr_cStr]
      have hat : AtHead (cStr p.sid) d.pid v.store.coll := atHead_of_head hnd hd
      exact hhead.symm ▸ hat
  | @delete p =>
    obtain ⟨hused, hfree, hat⟩ := hc
    refine ⟨hused, fun hp => ?_⟩
    rcases hp with hbook | ⟨σ, hσ⟩
    · obtain ⟨d, hd, hp⟩ := List.mem_map.mp hbook
      exact hat.not_mem_dropRec hnd d hd hp
    · exact hfree σ ((hclaim σ _ hσ).resolve_right nofun)
  | @probeDead r rest hdead =>
    have hused : r.pid ∈ v.store.os.used :=
      h.ledgered.covered.thread τ _ ht _ (List.mem_cons_self ..)
    refine ⟨hused, fun hp => ?_⟩
    have hold : v.Held r.pid := (hheld _ hp).resolve_right nofun
    rw [alive_of_spawned (h.spawned _ hold)] at hdead
    cases hdead
  | @lookupFound r rest d hd =>
    exact hc.2 (.inl (List.mem_map.mpr ⟨d, of_find?_pid hd⟩))
  | snapshot | probeAlive | lookupAbsent | detectForkFailed | detectUpdate =>
    exact Ctl.calm_detectNext _ _
  | detectForked => exact hc.elim
  | _ => trivial

theorem move (hsid : env.KeepsSids) (h : Calm env v) (hm : Moves env v l v') (hdb : l.dbOk = true)
    (hfresh : ∀ p, l.claimed = some p → p ∉ v.store.os.used)
    (hdie : ∀ p, l = .die p → ¬ v.store.os.Spawned p) : Calm env v' := by
  have hled := h.ledgered.move hm hdb hfresh
  have hheld : ∀ p, v'.Held p → v.Held p ∨ l.claimed = some p := fun p =>
    Ledger.held_of_change (change_of_moves h.ledgered.fits hm hdb)
  have hframe := fun hused hhead c => h.frame (c := c) hm hdb hfresh hused hhead
  cases hm with
  | call ht hc =>
    rename_i τ ch c c' st'
    have hstep := h.ledgered.fits.cstep ht hdb hc
    refine ⟨hled, fun p hp => ?_, fun σ d hd => ?_⟩
    · rcases hheld p hp with hp | hclaim
      · rcases hstep.spawned (h.spawned p hp) with hsp | ⟨q, rfl, rfl⟩
        · exact hsp
        · exact absurd hp (h.thread τ _ ht).2
      · cases ch with
        | pid q =>
          cases hclaim
          exact hstep.spawned_new
        | _ => cases hclaim
    · rcases of_update_some hd with ⟨-, rfl⟩ | ⟨-, hd⟩
      · exact h.own hsid ht hstep
      · refine hframe hstep.used.1 (fun k q hclaim hat => ?_) d (h.thread σ d hd)
        refine hstep.atHead h.ledgered.distinct.nodup (fun hq => hclaim τ ?_) hat
        exact (congrArg (Option.bind · Ctl.pending) ht).trans hq
  | front hidle hq =>
    refine ⟨hled, fun p hp => h.spawned p ((hheld p hp).resolve_right nofun), fun σ d hd => ?_⟩
    rcases of_update_some hd with ⟨-, rfl⟩ | ⟨-, hd⟩
    · rename_i ev q
      unfold Ctl.start
      cases ev.type <;> trivial
    · exact hframe (fun _ => id) (fun _ _ _ => id) d (h.thread σ d hd)
  | pop | detectEnd =>
    refine ⟨hled, fun p hp => h.spawned p ((hheld p hp).resolve_right nofun), fun σ d hd => ?_⟩
    exact hframe (fun _ => id) (fun _ _ _ => id) d (h.thread σ d (of_update_none hd).2)
  | detect =>
    refine ⟨hled, fun p hp => h.spawned p ((hheld p hp).resolve_right nofun), fun σ d hd => ?_⟩
    rcases of_update_some hd with ⟨-, rfl⟩ | ⟨-, hd⟩
    · trivial
    · exact hframe (fun _ => id) (fun _ _ _ => id) d (h.thread σ d hd)
  | put | abort =>
    refine ⟨hled, fun p hp => h.spawned p ((hheld p hp).resolve_right nofun), fun σ d hd => ?_⟩
    exact hframe (fun _ => id) (fun _ _ _ => id) d (h.thread σ d hd)
  | @die q =>
    refine ⟨hled, fun p hp => ?_, fun σ d hd => ?_⟩
    · have hsp := h.spawned p ((hheld p hp).resolve_right nofun)
      exact spawned_drop hsp fun heq => hdie q rfl (heq ▸ hsp)
    · exact hframe (fun _ => id) (fun _ _ _ => id) d (h.thread σ d hd)
  | appear =>
    refine ⟨hled, fun p hp => ?_, fun σ d hd => ?_⟩
    · exact spawned_add (h.spawned p ((hheld p hp).resolve_right nofun))
    · exact hframe (fun _ hp => List.mem_append_left _ hp) (fun _ _ _ => id) d (h.thread σ d hd)

end Calm

/-! ### Runs -/

theorem not_spawned_of_noCrash {s : Sys Ctl} {p : Int} (h : s.noCrash (.die p) = true) :
    ¬ s.os.Spawned p := by
  rintro ⟨a, ha, rfl, ho⟩
  have hall := List.all_eq_true.mp h a ha
  cases hown : a.owner <;> simp_all

theorem calm_of_runs {env : Env} {W : Int} {os : Os} {ok : Sys Ctl → Label → Prop} {ls : List Label}
    {u : Sys Ctl} (hsid : env.KeepsSids) (h : Runs (step (points env)) ok (Sys.boot W [] os) ls u)
    (hok : ∀ t l, ok t l → l.dbOk = true ∧ t.freshFork l = true ∧ t.noCrash l = true) :
    Calm env u.conf := by
  have hboot : Calm env (Sys.boot W [] os : Sys Ctl).conf := by
    refine ⟨ledgered_boot (by simp) (by simp), fun p hp => ?_, by simp⟩
    rcases held_iff.mp hp with ⟨d, hd, -⟩ | ⟨τ, c, hc, -⟩
    · cases hd
    · simp at hc
  refine h.inv (fun t => Calm env t.conf) hboot fun t l u hinv hl hstep => ?_
  obtain ⟨hdb, hfresh, hdie⟩ := hok t l hl
  refine hinv.move hsid (moves_of_step hstep) hdb (claimed_fresh hfresh) fun p hp => ?_
  subst hp
  exact not_spawned_of_noCrash hdie

/-- The scheduler has looked up a pid it has found dead and may find a record, or it is about to respawn. -/
def Sys.Respawns (env : Env) (s : Sys (Act Int)) : Prop :=
  (∃ p, s.next (service env) .sched = some (.findOne (.pid p)) ∧ ∃ d ∈ s.coll, d.pid = p) ∨
    ∃ param, s.next (service env) .sched = some (.fork param)

/-- **The scheduler never respawns a stream that did not crash**, if the sids of the starts come back:
when it looks up a pid it has found dead there is no record with that pid, and it never comes to fork. -/
theorem scheduler_never_respawns {env : Env} {W : Nat} {os : Os} {ls : List Label} {s : Sys (Act Int)}
    (h : Runs (step (service env))
      (fun t l => (l.dbOk = true ∧ t.freshFork l = true ∧ t.noCrash l = true) ∧
        l.intact env ["sid"] = true)
      (Sys.boot W [] os) ls s) : ¬ s.Respawns env := by
  replace h := runs_keep (List.forall_mem_nil _) (fun _ _ hok => hok.2) h
  rw [← Sys.map_boot (Ctl.code (env.keep ["sid"]))] at h
  obtain ⟨u, rfl, hrun⟩ := runs_points h
  have hcalm := calm_of_runs (keep_sids env) hrun fun _ _ hok => hok.1
  have hnext : (u.map (Ctl.code (env.keep ["sid"]))).next (service env) .sched =
      u.next (points (env.keep ["sid"])) .sched :=
    Sys.next_map (points_hom (env.keep ["sid"])).view u .sched
  rintro (⟨p, hp, d, hd, heq⟩ | ⟨param, hp⟩)
  · rw [hnext] at hp
    obtain ⟨c, hc, hcall⟩ := Option.bind_eq_some_iff.mp hp
    have hthread := hcalm.thread .sched c hc
    cases c with
    | detectLookup r rest =>
      cases hcall
      exact hthread.2 (.inl (List.mem_map.mpr ⟨d, hd, heq⟩))
    | _ => cases hcall
  · rw [hnext] at hp
    obtain ⟨c, hc, hcall⟩ := Option.bind_eq_some_iff.mp hp
    have hscan := hcalm.ledgered.fits.sched c hc
    cases c with
    | spawnFork | reloadFork => exact hscan.elim
    | detectFork => exact hcalm.thread .sched _ hc
    | _ => cases hcall

/-- A stream is started, the scheduler reads its record, the stream is stopped, and the scheduler finds
the pid dead. -/
def stopDuringPass (sid : Str) : List Label :=
  [.put (startEvent sid)] ++ startLabels 0 10 ++ [.detect, .call .sched .ok, .put (stopEvent sid)] ++
    stopLabels 0 ++ [.call .sched .ok]

def stopDuringPassEnd : Sys (Act Int) :=
  (check (step (service sampleEnv))
    (fun t l => (l.dbOk = true ∧ t.freshFork l = true ∧ t.noCrash l = true) ∧
      l.intact sampleEnv ["sid"] = true)
    (stopDuringPass [1]) (Sys.boot (1 : Nat) [] ⟨[], []⟩)).get (by decide)

theorem scheduler_never_respawns_stopped : ¬ stopDuringPassEnd.Respawns sampleEnv :=
  scheduler_never_respawns (runs_get _)

def controlSidEnd : Sys (Act Int) :=
  (check (step (service sampleEnv)) (fun t l => l.dbOk = true ∧ t.freshFork l = true ∧ t.noCrash l = true)
    (stopDuringPass [31]) (Sys.boot (1 : Nat) [] ⟨[], []⟩)).get (by decide)

/-- The stop finds the record of the sid, removes none, and kills the process. -/
theorem scheduler_respawns_stopped :
    ¬ ∀ (env : Env) (W : Nat) (os : Os) (ls : List Label) (s : Sys (Act Int)),
      Runs (step (service env)) (fun t l => l.dbOk = true ∧ t.freshFork l = true ∧ t.noCrash l = true)
        (Sys.boot W [] os) ls s → ¬ s.Respawns env := by
  intro h
  refine h sampleEnv 1 ⟨[], []⟩ (stopDuringPass [31]) controlSidEnd (runs_get _) (.inl ⟨10, ?_, ?_⟩)
  · decide
  · exact ⟨ServerBiz.processDoc sampleEnv { sampleInfo [31] with pid := 10 }, by decide, rfl⟩

end PullStream
