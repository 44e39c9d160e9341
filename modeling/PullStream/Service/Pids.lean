import PullStream.Control.Conf
/-!
# Where the pids are

A pid enters the service by a `fork` and is then held by the thread that forked until the thread has
written it into a record (`Ctl.pending`), and by the record from then on. So the pids form a ledger
(`Conf.ledger`): its book is the collection, its claims are the pending pids, and every step is a change
of the ledger (`change_of_moves`). When forks return fresh pids no pid is ever held twice
(`Conf.Ledgered.move`), because every pid a record or a thread mentions is used (`Conf.Covered`).
-/

namespace PullStream

open Function Transition Family

/-- The pid of a fork that the thread has not written into a record yet. -/
def Ctl.pending : Ctl → Option Int
  | .spawnInsert p | .reloadUpdate p | .detectUpdate p _ => some p.pid
  | _ => none

/-- The pids a thread still works with. -/
def Ctl.pids : Ctl → List Int
  | .spawnInsert p | .removeDelete p | .removeKill p | .reloadUpdate p => [p.pid]
  | .detectProbe r rest | .detectLookup r rest | .detectUpdate r rest => (r :: rest).map (·.pid)
  | .detectFork _ rest => rest.map (·.pid)
  | _ => []

/-- The pid a label brings in. -/
def Label.claimed : Label → Option Int
  | .call _ (.pid p) => some p
  | _ => none

namespace Ctl

@[simp] theorem pending_detectNext (l : List ProcessInfo) : (detectNext l).pending = none := by
  cases l <;> rfl

@[simp] theorem pids_detectNext (l : List ProcessInfo) : (detectNext l).pids = l.map (·.pid) := by
  cases l <;> rfl

@[simp] theorem pending_start (ev : Event) : (start ev).pending = none := by
  unfold start
  cases ev.type <;> rfl

@[simp] theorem pids_start (ev : Event) : (start ev).pids = [] := by
  unfold start
  cases ev.type <;> rfl

theorem mem_pids_of_pending {c : Ctl} {p : Int} (h : c.pending = some p) : p ∈ c.pids := by
  cases c <;> simp_all [pending, pids]

end Ctl

/-! ### Every pid in play is used -/

structure Conf.Covered (v : Conf) : Prop where
  coll : ∀ d ∈ v.store.coll, d.pid ∈ v.store.os.used
  thread : ∀ τ c, v.thread τ = some c → ∀ p ∈ c.pids, p ∈ v.store.os.used

section

variable {env : Env} {st st' : Store} {c c' : Ctl} {ch : Choice}

theorem mem_setPid {k : Str} {p : Int} {coll : List Doc} {d : Doc} (h : d ∈ setPid k p coll) :
    d ∈ coll ∨ d.sid = k ∧ d.pid = p := by
  rcases Keyed.mem_modifyFirst h with h | ⟨e, he, rfl⟩
  · exact .inl h
  · have hk := List.find?_some he
    exact .inr ⟨of_decide_eq_true hk, rfl⟩

theorem mem_of_mem_dropRec {k : Str} {coll : List Doc} {d : Doc} (h : d ∈ dropRec k coll) : d ∈ coll :=
  List.mem_of_mem_eraseP h

theorem CStep.pids (h : CStep env st c ch c' st') {p : Int} (hp : p ∈ c'.pids) :
    p ∈ c.pids ∨ (∃ d ∈ st.coll, d.pid = p) ∨ ch = .pid p := by
  cases h with
  | spawnForked | reloadForked => exact .inr (.inr (congrArg _ (List.mem_singleton.mp hp).symm))
  | removeFound hd => exact .inr (.inl ⟨_, (recs_head hd).1, (List.mem_singleton.mp hp).symm⟩)
  | snapshot =>
    rw [Ctl.pids_detectNext, List.map_map] at hp
    exact .inr (.inl (List.mem_map.mp hp))
  | detectForked =>
    rcases List.mem_cons.mp hp with hp | hp
    · exact .inr (.inr (congrArg _ hp.symm))
    · exact .inl hp
  | probeAlive | lookupAbsent | detectUpdate =>
    rw [Ctl.pids_detectNext] at hp
    exact .inl (List.mem_cons_of_mem _ hp)
  | detectForkFailed =>
    rw [Ctl.pids_detectNext] at hp
    exact .inl hp
  | lookupFound => exact .inl (List.mem_cons_of_mem _ hp)
  | delete | probeDead => exact .inl hp
  | _ => exact absurd hp List.not_mem_nil

theorem CStep.coll_pids (h : CStep env st c ch c' st') {d : Doc} (hd : d ∈ st'.coll) :
    (∃ e ∈ st.coll, e.pid = d.pid) ∨ c.pending = some d.pid := by
  cases h with
  | insert =>
    rcases List.mem_append.mp hd with hd | hd
    · exact .inl ⟨d, hd, rfl⟩
    · rw [List.mem_singleton.mp hd]
      exact .inr rfl
  | delete => exact .inl ⟨d, mem_of_mem_dropRec hd, rfl⟩
  | reloadUpdate | detectUpdate =>
    rcases mem_setPid hd with hd | ⟨-, hp⟩
    · exact .inl ⟨d, hd, rfl⟩
    · exact .inr (congrArg some hp.symm)
  | _ => exact .inl ⟨d, hd, rfl⟩

theorem CStep.used (h : CStep env st c ch c' st') :
    (∀ p ∈ st.os.used, p ∈ st'.os.used) ∧ ∀ p, ch = .pid p → p ∈ st'.os.used := by
  cases h with
  | @spawnForked p x | @reloadForked p x | @detectForked p rest x =>
    refine ⟨fun q hq => List.mem_append_left _ hq, fun q hq => ?_⟩
    cases hq
    exact List.mem_append_right _ (List.mem_singleton_self x)
  | _ => exact ⟨fun _ => id, nofun⟩

end

theorem Conf.Covered.move {env : Env} {v v' : Conf} {l : Label} (h : v.Covered) (hfits : v.Fits env)
    (hm : Moves env v l v') (hdb : l.dbOk = true) : v'.Covered := by
  cases hm with
  | call ht hc =>
    have hstep := hfits.cstep ht hdb hc
    obtain ⟨hused, hnew⟩ := hstep.used
    refine ⟨fun d hd => ?_, fun σ b hb p hp => ?_⟩
    · rcases hstep.coll_pids hd with ⟨e, he, hpe⟩ | hpend
      · exact hused _ (hpe ▸ h.coll e he)
      · exact hused _ (h.thread _ _ ht _ (Ctl.mem_pids_of_pending hpend))
    · rcases of_update_some hb with ⟨-, rfl⟩ | ⟨-, hb⟩
      · rcases hstep.pids hp with hp | ⟨d, hd, rfl⟩ | hch
        · exact hused _ (h.thread _ _ ht _ hp)
        · exact hused _ (h.coll d hd)
        · exact hnew p hch
      · exact hused _ (h.thread σ b hb p hp)
  | front hidle hq =>
    refine ⟨h.coll, fun σ b hb p hp => ?_⟩
    rcases of_update_some hb with ⟨-, rfl⟩ | ⟨-, hb⟩
    · rw [Ctl.pids_start] at hp
      exact absurd hp List.not_mem_nil
    · exact h.thread σ b hb p hp
  | pop | detectEnd => exact ⟨h.coll, fun σ b hb => h.thread σ b (of_update_none hb).2⟩
  | detect =>
    refine ⟨h.coll, fun σ b hb p hp => ?_⟩
    rcases of_update_some hb with ⟨-, rfl⟩ | ⟨-, hb⟩
    · exact absurd hp List.not_mem_nil
    · exact h.thread σ b hb p hp
  | appear =>
    exact ⟨fun d hd => List.mem_append_left _ (h.coll d hd),
      fun σ b hb p hp => List.mem_append_left _ (h.thread σ b hb p hp)⟩
  | put | abort | die => exact ⟨h.coll, h.thread⟩

/-! ### The ledger of pids -/

def Conf.ledger (v : Conf) : Ledger Tid Int where
  book := v.store.coll.map (·.pid)
  claim τ := (v.thread τ).bind Ctl.pending

/-- The pid is in a record or pending. -/
abbrev Conf.Held (v : Conf) (p : Int) : Prop := v.ledger.Held p

section

variable {env : Env} {v v' : Conf} {l : Label} {p : Int}

theorem held_iff : v.Held p ↔
    (∃ d ∈ v.store.coll, d.pid = p) ∨ ∃ τ c, v.thread τ = some c ∧ c.pending = some p := by
  simp [Conf.Held, Ledger.Held, Conf.ledger, Option.bind_eq_some_iff]

theorem Conf.Covered.used_of_held (h : v.Covered) (hp : v.Held p) : p ∈ v.store.os.used := by
  rcases held_iff.mp hp with ⟨d, hd, rfl⟩ | ⟨τ, c, ht, hc⟩
  · exact h.coll d hd
  · exact h.thread τ c ht p (Ctl.mem_pids_of_pending hc)

theorem claim_update (th : Tid → Option Ctl) (τ : Tid) (o : Option Ctl) :
    (fun σ => (update th τ o σ).bind Ctl.pending) =
      update (fun σ => (th σ).bind Ctl.pending) τ (o.bind Ctl.pending) := by
  funext σ
  by_cases hσ : σ = τ
  · subst hσ
    simp
  · simp [hσ]

theorem ledger_keep {τ : Tid} {o : Option Ctl} (hcoll : v'.store.coll = v.store.coll)
    (hth : v'.thread = update v.thread τ o)
    (ho : o.bind Ctl.pending = (v.thread τ).bind Ctl.pending) : v'.ledger = v.ledger := by
  rw [Conf.ledger, Conf.ledger, hcoll, hth, claim_update, ho, update_eq_self]

theorem change_of_keep (h : v'.ledger = v.ledger) : v.ledger.Change none v'.ledger := by
  rw [h]
  exact .refl _

/-- **A step of a thread is a change of the ledger.** -/
theorem change_of_cstep {τ : Tid} {ch : Choice} {c c' : Ctl} {st' : Store} (ht : v.thread τ = some c)
    (h : CStep env v.store c ch c' st') :
    v.ledger.Change (Label.call τ ch).claimed
      (Conf.ledger { v with thread := update v.thread τ (some c'), store := st' }) := by
  have hclaim : v.ledger.claim τ = c.pending := congrArg (Option.bind · Ctl.pending) ht
  have hkeep : c.pending = none → update v.ledger.claim τ none = v.ledger.claim := by
    intro hnone
    rw [← hnone, ← hclaim, update_eq_self]
  have hnext : Conf.ledger { v with thread := update v.thread τ (some c'), store := st' } =
      ⟨st'.coll.map (·.pid), update v.ledger.claim τ c'.pending⟩ := by
    rw [Conf.ledger, claim_update]
    rfl
  rw [hnext]
  cases h with
  | @spawnForked p x hx | @reloadForked p x hx | @detectForked p rest x hx =>
    exact .claim τ x hclaim
  | @insert p =>
    refine .enter τ p.pid _ hclaim (fun b hb => ?_) fun hnd hp => ?_
    · rw [List.map_append] at hb
      exact (List.mem_append.mp hb).symm.imp List.mem_singleton.mp id
    · rw [List.map_append]
      refine List.nodup_append.mpr ⟨hnd, List.nodup_singleton _, fun a ha b hb hab => hp ?_⟩
      rw [hab, List.mem_singleton.mp hb] at ha
      exact ha
  | @reloadUpdate p | @detectUpdate p rest =>
    simp only [Ctl.pending_detectNext]
    refine .enter τ p.pid _ hclaim (fun b hb => ?_) fun hnd hp => ?_
    · obtain ⟨d, hd, rfl⟩ := List.mem_map.mp hb
      exact (mem_setPid hd).symm.imp And.right fun hd => List.mem_map_of_mem hd
    · refine Keyed.nodup_modifyFirst hnd fun d _ e he heq => hp ?_
      exact List.mem_map.mpr ⟨e, he, heq.symm⟩
  | @delete p =>
    show v.ledger.Change none ⟨_, update v.ledger.claim τ none⟩
    rw [hkeep rfl]
    exact .shorten _ (List.eraseP_sublist.map _)
  | snapshot | probeAlive | lookupAbsent | detectForkFailed =>
    rw [Ctl.pending_detectNext, hkeep rfl]
    exact .refl _
  | _ =>
    show v.ledger.Change none ⟨v.ledger.book, update v.ledger.claim τ none⟩
    rw [hkeep rfl]
    exact .refl _

/-- **A step of the service is a change of the ledger.** -/
theorem change_of_moves (hfits : v.Fits env) (hm : Moves env v l v') (hdb : l.dbOk = true) :
    v.ledger.Change l.claimed v'.ledger := by
  cases hm with
  | call ht hc => exact change_of_cstep ht (hfits.cstep ht hdb hc)
  | @front i ev q hidle hq =>
    refine change_of_keep (ledger_keep rfl rfl ?_)
    rw [hfits.idle hidle]
    exact Ctl.pending_start ev
  | pop hev ht hq => exact change_of_keep (ledger_keep rfl rfl (by rw [ht]; rfl))
  | detect ht => exact change_of_keep (ledger_keep rfl rfl (by rw [ht]; rfl))
  | detectEnd ht => exact change_of_keep (ledger_keep rfl rfl (by rw [ht]; rfl))
  | put | abort | die | appear => exact change_of_keep rfl

end

/-- What holds of pids in every run whose forks return fresh pids. -/
structure Conf.Ledgered (env : Env) (v : Conf) : Prop where
  fits : v.Fits env
  covered : v.Covered
  distinct : v.ledger.Distinct

namespace Conf.Ledgered

variable {env : Env} {v v' : Conf} {l : Label} {p : Int}

theorem move (h : v.Ledgered env) (hm : Moves env v l v') (hdb : l.dbOk = true)
    (hfresh : ∀ p, l.claimed = some p → p ∉ v.store.os.used) : v'.Ledgered env where
  fits := h.fits.move hm
  covered := h.covered.move h.fits hm hdb
  distinct := h.distinct.change (change_of_moves h.fits hm hdb) fun p hp hheld =>
    hfresh p hp (h.covered.used_of_held hheld)

theorem not_held (h : v.Ledgered env) (hm : Moves env v l v') (hdb : l.dbOk = true)
    (hfresh : ∀ p, l.claimed = some p → p ∉ v.store.os.used) (hused : p ∈ v.store.os.used)
    (hp : ¬ v.Held p) : ¬ v'.Held p :=
  Ledger.not_held_of_change (change_of_moves h.fits hm hdb) (fun hl => hfresh p hl hused) hp

end Conf.Ledgered

theorem claimed_fresh {s : Sys Ctl} {l : Label} (h : s.freshFork l = true) :
    ∀ p, l.claimed = some p → p ∉ s.conf.store.os.used := by
  intro p hp
  cases l with
  | call τ ch =>
    cases ch with
    | pid q =>
      cases hp
      exact of_decide_eq_true h
    | _ => cases hp
  | _ => cases hp

theorem ledgered_boot {env : Env} {W : Int} {coll : List Doc} {os : Os} (hused : ∀ d ∈ coll, d.pid ∈ os.used)
    (hnodup : (coll.map (·.pid)).Nodup) : (Sys.boot W coll os : Sys Ctl).conf.Ledgered env where
  fits := fits_boot env W coll os
  covered := ⟨hused, by simp⟩
  distinct := ⟨⟨by simp [Conf.ledger], by simp [Conf.ledger]⟩, hnodup⟩

/-! ### Pids found dead -/

theorem CStep.spawned_of {env : Env} {st st' : Store} {c c' : Ctl} {ch : Choice} {q : Int}
    (h : CStep env st c ch c' st') (hq : st'.os.Spawned q) : st.os.Spawned q ∨ ch = .pid q := by
  cases h with
  | spawnForked | reloadForked | detectForked =>
    obtain ⟨a, ha, hp, ho⟩ := hq
    rcases List.mem_append.mp ha with ha | ha
    · exact .inl ⟨a, ha, hp, ho⟩
    · rw [List.mem_singleton.mp ha] at hp
      exact .inr (congrArg _ hp)
  | kill =>
    obtain ⟨a, ha, hp, ho⟩ := hq
    exact .inl ⟨a, (List.mem_filter.mp ha).1, hp, ho⟩
  | _ => exact .inl hq

theorem CStep.sids {env : Env} {st st' : Store} {c c' : Ctl} {ch : Choice} (h : CStep env st c ch c' st')
    (hsids : ∀ d ∈ st.coll, cStr d.sid = d.sid) : ∀ d ∈ st'.coll, cStr d.sid = d.sid := by
  intro d hd
  cases h with
  | insert =>
    rcases List.mem_append.mp hd with hd | hd
    · exact hsids d hd
    · rw [List.mem_singleton.mp hd]
      exact cStr_cStr _
  | delete => exact hsids d (mem_of_mem_dropRec hd)
  | reloadUpdate | detectUpdate =>
    rcases mem_setPid hd with hd | ⟨hk, -⟩
    · exact hsids d hd
    · rw [hk, cStr_cStr]
  | _ => exact hsids d hd

/-- The collection holds records that the service can have written: their pids are used, their sids have
no NUL. -/
structure Written (coll : List Doc) (os : Os) : Prop where
  used : ∀ d ∈ coll, d.pid ∈ os.used
  sids : ∀ d ∈ coll, cStr d.sid = d.sid

/-- The pid that the scheduler is about to look up belongs to no process of the service. -/
structure Conf.Probed (env : Env) (v : Conf) : Prop where
  fits : v.Fits env
  covered : v.Covered
  sids : ∀ d ∈ v.store.coll, cStr d.sid = d.sid
  dead : ∀ r rest, v.thread .sched = some (.detectLookup r rest) → ¬ v.store.os.Spawned r.pid

namespace Conf.Probed

variable {env : Env} {v v' : Conf} {l : Label}

theorem call (h : v.Probed env) {τ : Tid} {ch : Choice} {c c' : Ctl} {st' : Store} (ht : v.thread τ = some c)
    (hstep : CStep env v.store c ch c' st') (hfresh : ∀ p, ch = .pid p → p ∉ v.store.os.used)
    {r : ProcessInfo} {rest : List ProcessInfo}
    (hr : update v.thread τ (some c') .sched = some (.detectLookup r rest)) : ¬ st'.os.Spawned r.pid := by
  intro hsp
  rcases of_update_some hr with ⟨rfl, hc'⟩ | ⟨-, hr⟩
  · cases hstep with
    | probeDead hdead =>
      cases hc'
      obtain ⟨a, ha, hp, -⟩ := hsp
      rw [alive_iff.mpr ⟨a, ha, hp⟩] at hdead
      cases hdead
    | snapshot => cases hcoll : v.store.coll <;> rw [hcoll] at hc' <;> cases hc'
    | @probeAlive r rest | @lookupAbsent r rest | @detectForkFailed r rest | @detectUpdate r rest =>
      cases rest <;> cases hc'
    | _ => cases hc'
  · rcases hstep.spawned_of hsp with hsp | hch
    · exact h.dead r rest hr hsp
    · exact hfresh _ hch (h.covered.thread _ _ hr _ List.mem_cons_self)

theorem move (h : v.Probed env) (hm : Moves env v l v') (hdb : l.dbOk = true)
    (hfresh : ∀ p, l.claimed = some p → p ∉ v.store.os.used) : v'.Probed env := by
  have hsids : ∀ d ∈ v'.store.coll, cStr d.sid = d.sid := by
    cases hm with
    | call ht hc => exact (h.fits.cstep ht hdb hc).sids h.sids
    | _ => exact h.sids
  refine ⟨h.fits.move hm, h.covered.move h.fits hm hdb, hsids, fun r rest hr hsp => ?_⟩
  cases hm with
  | call ht hc =>
    refine h.call ht (h.fits.cstep ht hdb hc) (fun p hch => hfresh p ?_) hr hsp
    rw [hch]
    rfl
  | die =>
    obtain ⟨a, ha, hp, ho⟩ := hsp
    exact h.dead r rest hr ⟨a, (List.mem_filter.mp ha).1, hp, ho⟩
  | appear =>
    obtain ⟨a, ha, hp, ho⟩ := hsp
    rcases List.mem_append.mp ha with ha | ha
    · exact h.dead r rest hr ⟨a, ha, hp, ho⟩
    · rw [List.mem_singleton.mp ha] at ho
      cases ho
  | detect => cases hr
  | detectEnd => cases hr
  | put | front | pop | abort => exact h.dead r rest hr hsp

end Conf.Probed

theorem apart_of_runs {env : Env} {W : Int} {coll : List Doc} {os : Os} {ok : Sys Ctl → Label → Prop}
    {ls : List Label} {u : Sys Ctl} (hcoll : Written coll os)
    (h : Runs (step (points env)) ok (Sys.boot W coll os) ls u)
    (hok : ∀ t l, ok t l → l.dbOk = true ∧ t.freshFork l = true) : u.conf.ledger.Apart := by
  refine (h.inv (fun t => t.conf.Fits env ∧ t.conf.Covered ∧ t.conf.ledger.Apart)
    ⟨fits_boot .., ⟨hcoll.used, by simp⟩, ⟨by simp [Conf.ledger], by simp [Conf.ledger]⟩⟩ ?_).2.2
  intro t l u ⟨hfits, hcovered, hapart⟩ hl hstep
  obtain ⟨hdb, hfresh⟩ := hok t l hl
  have hm := moves_of_step hstep
  refine ⟨hfits.move hm, hcovered.move hfits hm hdb, hapart.change (change_of_moves hfits hm hdb) ?_⟩
  exact fun p hp hheld => claimed_fresh hfresh p hp (hcovered.used_of_held hheld)

theorem probed_of_runs {env : Env} {W : Int} {coll : List Doc} {os : Os} {ok : Sys Ctl → Label → Prop}
    {ls : List Label} {u : Sys Ctl} (hcoll : Written coll os)
    (h : Runs (step (points env)) ok (Sys.boot W coll os) ls u)
    (hok : ∀ t l, ok t l → l.dbOk = true ∧ t.freshFork l = true) : u.conf.Probed env := by
  refine h.inv (fun t => t.conf.Probed env) ⟨fits_boot .., ⟨hcoll.used, by simp⟩, hcoll.sids, by simp⟩ ?_
  intro t l u hinv hl hstep
  obtain ⟨hdb, hfresh⟩ := hok t l hl
  exact hinv.move (moves_of_step hstep) hdb (claimed_fresh hfresh)

end PullStream
