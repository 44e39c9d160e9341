import PullStream.Service.Respawn
/-!
# One replacement for one crash

A stream whose recorded process has died is respawned by a reload or by a scheduler pass. Both look up the
record, fork, and write the new pid, and nothing keeps one out while the other is at it: if both look
before either writes, both fork (`two_replacements`). `process_reload` does not even ask whether the
recorded process is dead.

When a look that leads to a respawn finds the recorded process dead and no other respawn of the sid going
on (`Sys.looksAlone`), a pass that begins after the crash leaves exactly one live process, the recorded
one (`one_replacement`). The run goes through three phases: `Dead`, `Respawning` and `Recovered`. That it
does not end in the first one is a matter of counting (`Ctl.Owes`): the pass still has at least as many
snapshot entries with the dead pid as there are records with it, and each of these entries makes it
respawn the first of them.
-/

namespace PullStream

open Function Transition Family

/-! ### Assumptions and the condition -/

/-- No process gets a pid that some process or some record has had. -/
def Sys.freshPids {T : Type} (s : Sys T) : Label → Bool
  | .call _ (.pid p) | .appear p => p ∉ s.os.used
  | _ => true

/-- No start and no stop of the sid is put. -/
def Label.onlyReloads (k : Str) : Label → Bool
  | .put ev => decide (ev.key = k → ev.type ≠ .createProcess ∧ ev.type ≠ .removeProcess)
  | _ => true

/-- No process of the sid ends by itself. -/
def Sys.spares {T : Type} (k : Str) (s : Sys T) : Label → Bool
  | .die p => p ∉ s.os.live k
  | _ => true

def Sys.tids {T : Type} (s : Sys T) : List Tid := .sched :: (List.range s.workerList.length).map .worker

/-- A look that finds the record of the sid finds its process dead, and no thread is respawning the sid. -/
def Sys.looksAlone {T : Type} (I : Threads T) (k : Str) (s : Sys T) : Label → Bool
  | .call τ _ =>
    match s.next I τ with
    | some (.findOne q) =>
      match s.coll.find? q.matches with
      | some d =>
        decide (d.sid = k → s.os.alive d.pid = false ∧
          ∀ σ ∈ s.tids, (s.next I σ).any (Call.respawns k) = false)
      | none => true
    | _ => true
  | _ => true

/-- The recorded process of the sid has died, no other process was forked for it, and no start, stop or
respawn of it is under way. Sids are unique. -/
structure Sys.Crashed {T : Type} (I : Threads T) (k : Str) (s : Sys T) : Prop where
  unique : ∀ j, (recs j s.coll).length ≤ 1
  dead : ∃ d, recs k s.coll = [d] ∧ s.os.alive d.pid = false
  none : s.os.live k = []
  queues : ∀ i, ∀ ev ∈ s.queue i, ev.key = k → ev.type ≠ .createProcess ∧ ev.type ≠ .removeProcess
  calm : ∀ τ, (s.next I τ).any (Call.respawns k) = false

/-! ### Pids of other streams -/

/-- The pid of another stream that a thread will write into a record or kill. -/
def Ctl.foreign (k : Str) : Ctl → Option Int
  | .spawnInsert p | .removeDelete p | .removeKill p | .reloadUpdate p | .detectUpdate p _ =>
    if cStr p.sid = k then none else some p.pid
  | _ => none

/-- A pid that belongs to another stream. -/
def Conf.Foreign (k : Str) (v : Conf) (p : Int) : Prop :=
  (∃ d ∈ v.store.coll, d.sid ≠ k ∧ d.pid = p) ∨ ∃ τ c, v.thread τ = some c ∧ c.foreign k = some p

section

variable {env : Env} {st st' : Store} {c c' : Ctl} {ch : Choice} {k : Str} {p : Int}

@[simp] theorem Ctl.foreign_detectNext (k : Str) (l : List ProcessInfo) :
    (detectNext l).foreign k = none := by
  cases l <;> rfl

@[simp] theorem Ctl.foreign_start (k : Str) (ev : Event) : (start ev).foreign k = none := by
  unfold start
  cases ev.type <;> rfl

theorem Ctl.mem_pids_of_foreign (h : c.foreign k = some p) : p ∈ c.pids := by
  cases c with
  | spawnInsert q | removeDelete q | removeKill q | reloadUpdate q | detectUpdate q =>
    simp only [foreign] at h
    split_ifs at h
    cases h
    exact List.mem_cons_self
  | _ => cases h

theorem CStep.foreign (hsid : env.KeepsSids) (h : CStep env st c ch c' st') (hsids : ∀ d ∈ st.coll, cStr d.sid = d.sid)
    (hc' : c'.foreign k = some p) :
    c.foreign k = some p ∨ (∃ d ∈ st.coll, d.sid ≠ k ∧ d.pid = p) ∨ ch = .pid p ∧ c.target ≠ some k := by
  cases h with
  | spawnForked | reloadForked | detectForked =>
    simp only [Ctl.foreign] at hc'
    split_ifs at hc' with hk
    cases hc'
    exact .inr (.inr ⟨rfl, fun ht => hk (Option.some.inj ht)⟩)
  | removeFound hd =>
    simp only [Ctl.foreign, Doc.seen, hsid _] at hc'
    split_ifs at hc' with hk
    cases hc'
    obtain ⟨hmem, -⟩ := recs_head hd
    exact .inr (.inl ⟨_, hmem, fun heq => hk ((hsids _ hmem).trans heq), rfl⟩)
  | delete => exact .inl hc'
  | snapshot | probeAlive | lookupAbsent | detectForkFailed | detectUpdate =>
    rw [Ctl.foreign_detectNext] at hc'
    cases hc'
  | _ => cases hc'

theorem CStep.foreign_coll (h : CStep env st c ch c' st') {d : Doc} (hd : d ∈ st'.coll) (hk : d.sid ≠ k) :
    (∃ e ∈ st.coll, e.sid ≠ k ∧ e.pid = d.pid) ∨ c.foreign k = some d.pid := by
  cases h with
  | insert =>
    rcases List.mem_append.mp hd with hd | hd
    · exact .inl ⟨d, hd, hk, rfl⟩
    · obtain rfl := List.mem_singleton.mp hd
      exact .inr (if_neg hk)
  | delete => exact .inl ⟨d, mem_of_mem_dropRec hd, hk, rfl⟩
  | reloadUpdate | detectUpdate =>
    rcases mem_setPid hd with hd | ⟨hsid, hpid⟩
    · exact .inl ⟨d, hd, hk, rfl⟩
    · rw [hpid]
      exact .inr (if_neg fun heq => hk (hsid.trans heq))
  | _ => exact .inl ⟨d, hd, hk, rfl⟩

theorem CStep.live_new (h : CStep env st c ch c' st') (hp : p ∈ st'.os.live k) :
    p ∈ st.os.live k ∨ ch = .pid p ∧ c.target = some k := by
  by_cases hk : c.target = some k
  · cases h with
    | spawnForked | reloadForked | detectForked =>
      rw [live_add] at hp
      split_ifs at hp
      · rcases List.mem_append.mp hp with hp | hp
        · exact .inl hp
        · exact .inr ⟨congrArg _ (List.mem_singleton.mp hp).symm, hk⟩
      · exact .inl hp
    | kill => cases hk
    | _ => exact .inl hp
  · exact .inl (h.live_subset hk p hp)

theorem CStep.free (h : CStep env st c (.pid p) c' st') : st.os.alive p = false := by
  cases h <;> assumption

end

/-- No process of the sid has the pid of another stream. -/
def Apart (k : Str) (v : Conf) : Prop := ∀ p, v.Foreign k p → p ∉ v.store.os.live k

section

variable {env : Env} {k : Str} {v v' : Conf} {l : Label}

theorem Apart.frame (h : Apart k v) (hcoll : v'.store.coll = v.store.coll)
    (hlive : ∀ p ∈ v'.store.os.live k, p ∈ v.store.os.live k)
    (hth : ∀ τ c, v'.thread τ = some c → v.thread τ = some c ∨ c.foreign k = none) : Apart k v' := by
  intro p hp hmem
  refine h p ?_ (hlive p hmem)
  rcases hp with ⟨d, hd, hk⟩ | ⟨τ, c, ht, hc⟩
  · exact .inl ⟨d, hcoll ▸ hd, hk⟩
  · rcases hth τ c ht with ht | hnone
    · exact .inr ⟨τ, c, ht, hc⟩
    · rw [hnone] at hc
      cases hc

theorem Apart.call (hsid : env.KeepsSids) (h : Apart k v) (hprobed : v.Probed env) {τ : Tid} {ch : Choice}
    {c c' : Ctl} {st' : Store} (ht : v.thread τ = some c) (hstep : CStep env v.store c ch c' st')
    (hfresh : ∀ p, ch = .pid p → p ∉ v.store.os.used) :
    Apart k { v with thread := update v.thread τ (some c'), store := st' } := by
  have hused : ∀ p, v.Foreign k p → p ∈ v.store.os.used := by
    rintro p (⟨d, hd, -, rfl⟩ | ⟨σ, b, hb, hp⟩)
    · exact hprobed.covered.coll d hd
    · exact hprobed.covered.thread σ b hb p (Ctl.mem_pids_of_foreign hp)
  -- a pid that is new among the others comes from a fork for another stream
  have hnew : ∀ p, Conf.Foreign k { v with thread := update v.thread τ (some c'), store := st' } p →
      v.Foreign k p ∨ ch = .pid p ∧ c.target ≠ some k := by
    rintro p (⟨d, hd, hk, rfl⟩ | ⟨σ, b, hb, hp⟩)
    · rcases hstep.foreign_coll hd hk with hold | hown
      · exact .inl (.inl hold)
      · exact .inl (.inr ⟨τ, c, ht, hown⟩)
    · rcases of_update_some hb with ⟨rfl, rfl⟩ | ⟨-, hb⟩
      · rcases hstep.foreign hsid hprobed.sids hp with hold | hold | hfork
        · exact .inl (.inr ⟨σ, c, ht, hold⟩)
        · exact .inl (.inl hold)
        · exact .inr hfork
      · exact .inl (.inr ⟨σ, b, hb, hp⟩)
  intro p hp hmem
  rcases hnew p hp with hp | ⟨rfl, hk⟩
  · rcases hstep.live_new hmem with hmem | ⟨rfl, -⟩
    · exact h p hp hmem
    · exact hfresh p rfl (hused p hp)
  · rcases hstep.live_new hmem with hmem | ⟨-, hk'⟩
    · have halive := alive_of_live hmem
      rw [hstep.free] at halive
      cases halive
    · exact hk hk'

end

/-! ### What a pass still has to look at -/

/-- The entries of the snapshot that a pass has still to go through. -/
def Ctl.entries : Ctl → List ProcessInfo
  | .detectProbe r rest | .detectLookup r rest => r :: rest
  | .detectFork _ rest | .detectUpdate _ rest => rest
  | _ => []

/-- How many records have the pid, those of a sid that is being respawned aside. -/
def owed (p : Int) (j : Option Str) (coll : List Doc) : Nat :=
  coll.countP fun d => d.pid = p ∧ some d.sid ≠ j

/-- A pass that has read its snapshot has at least as many entries with the pid as there are records. -/
def Ctl.Owes (p : Int) (coll : List Doc) (c : Ctl) : Prop :=
  c = .detectFind ∨ owed p c.window coll ≤ c.entries.countP fun r => r.pid = p

@[simp] theorem Ctl.entries_detectNext (l : List ProcessInfo) : (detectNext l).entries = l := by
  cases l <;> rfl

section

variable {env : Env} {st st' : Store} {c c' : Ctl} {ch : Choice} {p : Int} {j : Option Str}

theorem owed_le (coll : List Doc) : owed p j coll ≤ coll.countP fun d => d.pid = p := by
  unfold owed
  apply List.countP_mono_left
  intro d _ hd
  exact decide_eq_true (of_decide_eq_true hd).1

theorem owed_none (coll : List Doc) : owed p none coll = coll.countP fun d => d.pid = p := by
  unfold owed
  apply List.countP_congr
  intro d _
  simp

theorem CStep.owed_le (h : CStep env st c ch c' st') (hc : c.pending ≠ some p) :
    owed p j st'.coll ≤ owed p j st.coll := by
  have hne : ∀ q : ProcessInfo, c.pending = some q.pid → q.pid ≠ p := by
    intro q hq heq
    exact hc (heq ▸ hq)
  unfold owed
  cases h with
  | @insert q =>
    have hq := hne q rfl
    rw [List.countP_append, List.countP_singleton, if_neg]
    · omega
    · simp [ServerBiz.processDoc, hq]
  | delete => exact List.Sublist.countP_le (List.eraseP_sublist)
  | @reloadUpdate q | @detectUpdate q rest =>
    have hq := hne q rfl
    exact Keyed.countP_modifyFirst_le (fun d => by simp [hq]) st.coll
  | _ => exact Nat.le_refl _

theorem owed_setPid {k : Str} {q : Int} {coll : List Doc} (hq : q ≠ p)
    (htail : ∀ d ∈ (recs k coll).tail, d.pid ≠ p) :
    owed p none (setPid k q coll) ≤ owed p (some k) coll := by
  have hgone : ∀ d ∈ setPid k q coll, d.pid = p → d.sid ≠ k := by
    intro d hd hpid hsid
    have hrec : d ∈ recs k (setPid k q coll) := mem_recs.mpr ⟨hd, hsid⟩
    rw [recs_setPid_self] at hrec
    cases hr : recs k coll with
    | nil => simp [hr] at hrec
    | cons e rest =>
      rw [hr] at hrec htail
      rcases List.mem_cons.mp hrec with rfl | hrest
      · exact hq hpid
      · exact htail d hrest hpid
  calc owed p none (setPid k q coll)
      = owed p (some k) (setPid k q coll) := by
        unfold owed
        apply List.countP_congr
        intro d hd
        have hsid := hgone d hd
        simp only [decide_eq_true_eq]
        constructor
        · rintro ⟨hpid, -⟩
          exact ⟨hpid, fun heq => hsid hpid (Option.some.inj heq)⟩
        · rintro ⟨hpid, -⟩
          exact ⟨hpid, nofun⟩
    _ ≤ owed p (some k) coll := by
        unfold owed
        exact Keyed.countP_modifyFirst_le (fun d => by simp [hq]) coll

theorem not_owes_done {coll : List Doc} {d : Doc} {rtn : Int} (hd : d ∈ coll) (hp : d.pid = p) :
    ¬ (Ctl.done rtn).Owes p coll := by
  rintro (h | h)
  · cases h
  · have hle : owed p none coll ≤ 0 := h
    have hpos : 0 < owed p none coll := by
      rw [owed_none, List.countP_pos_iff]
      exact ⟨d, hd, decide_eq_true hp⟩
    omega

theorem CStep.owes (hsid : env.KeepsSids) (h : CStep env st c ch c' st') (hscan : c.Scans)
    (howes : c.Owes p st.coll) (hfork : ch ≠ .forkFail) (hdead : st.os.alive p = false) (hpending : c.pending ≠ some p)
    (hrecorded : ∃ d ∈ st.coll, d.pid = p) (htails : ∀ j, ∀ d ∈ (recs j st.coll).tail, d.pid ≠ p)
    (hsids : ∀ d ∈ st.coll, cStr d.sid = d.sid) : c'.Owes p st'.coll := by
  unfold Ctl.Owes at howes ⊢
  have hle : c ≠ .detectFind → owed p c.window st.coll ≤ c.entries.countP fun r => r.pid = p := by
    intro hc
    exact howes.resolve_left hc
  right
  cases h with
  | snapshot =>
    rw [Ctl.window_detectNext, Ctl.entries_detectNext, owed_none, List.countP_map]
    exact Nat.le_refl _
  | @probeAlive r rest halive =>
    have hr : r.pid ≠ p := by
      rintro rfl
      rw [hdead] at halive
      cases halive
    have hle := hle nofun
    rw [Ctl.window_detectNext, Ctl.entries_detectNext]
    simpa [Ctl.window, Ctl.entries, hr] using hle
  | probeDead => exact hle nofun
  | @lookupFound r rest d hd =>
    obtain ⟨hmem, hpid⟩ := of_find?_pid hd
    have hle := hle nofun
    have hwindow : (Ctl.detectFork (d.seen env.shown) rest).window = some (cStr d.sid) :=
      congrArg (fun sid => some (cStr sid)) (hsid d.sid)
    rw [hwindow]
    by_cases hr : r.pid = p
    · have hlt : owed p (some (cStr d.sid)) st.coll < owed p none st.coll := by
        unfold owed
        refine Keyed.countP_lt (fun e _ he => ?_) hmem ?_ ?_
        · simp_all
        · simp [hsids d hmem]
        · simp [hpid, hr]
      simp only [Ctl.window, Ctl.entries, List.countP_cons, hr, decide_true, if_true] at hle ⊢
      omega
    · have hmono : owed p (some (cStr d.sid)) st.coll ≤ owed p none st.coll := by
        rw [owed_none]
        exact PullStream.owed_le st.coll
      simp only [Ctl.window, Ctl.entries, List.countP_cons, hr, decide_false, Bool.false_eq_true,
        if_false] at hle ⊢
      omega
  | @lookupAbsent r rest habsent =>
    obtain ⟨d, hd, hpid⟩ := hrecorded
    have hr : r.pid ≠ p := by
      intro heq
      have hnot := List.find?_eq_none.mp habsent d hd
      exact hnot (decide_eq_true (hpid.trans heq.symm))
    have hle := hle nofun
    rw [Ctl.window_detectNext, Ctl.entries_detectNext]
    simpa [Ctl.window, Ctl.entries, hr] using hle
  | detectForkFailed => exact absurd rfl hfork
  | detectForked => exact hle nofun
  | @detectUpdate q rest =>
    have hq : q.pid ≠ p := fun heq => hpending (congrArg some heq)
    have hle : owed p (some (cStr q.sid)) st.coll ≤ rest.countP fun r => r.pid = p := hle nofun
    rw [Ctl.window_detectNext, Ctl.entries_detectNext]
    exact (owed_setPid hq (htails _)).trans hle
  | _ => exact hscan.elim

end

/-! ### The three phases -/

/-- The recorded process is dead and no thread respawns the sid. No thread is about to write the dead pid,
and of each sid only the first record can have it. -/
structure Dead (k : Str) (d : Doc) (v : Conf) : Prop where
  recs : recs k v.store.coll = [d]
  live : v.store.os.live k = []
  dead : v.store.os.alive d.pid = false
  window : ∀ τ c, v.thread τ = some c → c.window ≠ some k
  unclaimed : ∀ τ, v.ledger.claim τ ≠ some d.pid
  tails : ∀ j, ∀ e ∈ (PullStream.recs j v.store.coll).tail, e.pid ≠ d.pid

/-- The thread respawns the sid, and no other one does. -/
structure Respawning (k : Str) (τ : Tid) (d : Doc) (v : Conf) : Prop where
  recs : recs k v.store.coll = [d]
  thread : ∃ c, v.thread τ = some c ∧ c.window = some k ∧ v.store.os.live k = c.pending.toList
  alone : ∀ σ c, v.thread σ = some c → c.window = some k → σ = τ

/-- The recorded process is the one live process. -/
structure Recovered (k : Str) (d : Doc) (v : Conf) : Prop where
  recs : recs k v.store.coll = [d]
  live : v.store.os.live k = [d.pid]
  window : ∀ τ c, v.thread τ = some c → c.window ≠ some k

/-- A pass is going on that still owes the records with the pid a look. -/
def Owing (p : Int) (v : Conf) : Prop := ∃ c, v.thread .sched = some c ∧ c.Owes p v.store.coll

/-- One of the three phases; in the first one a pass that has begun has still to come to the sid. -/
def Tending (k : Str) (begun : Prop) (v : Conf) : Prop :=
  (∃ d, Dead k d v ∧ (begun → Owing d.pid v)) ∨ (∃ τ d, Respawning k τ d v) ∨ ∃ d, Recovered k d v

/-- What holds in all phases: the sid is only being reloaded, and other streams have other pids. -/
structure Tended (env : Env) (k : Str) (v : Conf) : Prop where
  probed : v.Probed env
  apart : Apart k v
  reloads : ∀ i, ∀ ev ∈ v.queue i, ev.key = k → ev.type ≠ .createProcess ∧ ev.type ≠ .removeProcess

section

variable {env : Env} {st st' : Store} {c c' : Ctl} {ch : Choice} {p : Int}

theorem Dead.mem {k : Str} {d : Doc} {v : Conf} (h : Dead k d v) : d ∈ v.store.coll := by
  have hrec : d ∈ PullStream.recs k v.store.coll := h.recs ▸ List.mem_singleton_self d
  exact (mem_recs.mp hrec).1

theorem CStep.alive_new (h : CStep env st c ch c' st') (hp : st'.os.alive p = true) :
    st.os.alive p = true ∨ ch = .pid p := by
  cases h with
  | spawnForked | reloadForked | detectForked =>
    exact (alive_of_add hp).imp_right (congrArg _)
  | kill => exact .inl (alive_of_drop hp)
  | _ => exact .inl hp

theorem CStep.tails (h : CStep env st c ch c' st') (hc : c.pending ≠ some p)
    (htails : ∀ j, ∀ e ∈ (recs j st.coll).tail, e.pid ≠ p) :
    ∀ j, ∀ e ∈ (recs j st'.coll).tail, e.pid ≠ p := by
  intro j e he
  have hsub : ∀ e ∈ (recs j st.coll).tail.tail, e.pid ≠ p := by
    intro e he
    exact htails j e (List.mem_of_mem_tail he)
  cases h with
  | @insert q =>
    rw [recs_insert] at he
    split_ifs at he
    · cases hr : recs j st.coll with
      | nil => simp [hr] at he
      | cons a rest =>
        have htail := htails j
        rw [hr] at he htail
        rcases List.mem_append.mp he with he | he
        · exact htail e he
        · rw [List.mem_singleton.mp he]
          exact fun hq => hc (congrArg some hq)
    · exact htails j e he
  | @delete q =>
    by_cases hj : j = cStr q.sid
    · subst hj
      rw [recs_dropRec_self] at he
      exact hsub e he
    · rw [recs_dropRec_ne hj] at he
      exact htails j e he
  | @reloadUpdate q | @detectUpdate q rest =>
    by_cases hj : j = cStr q.sid
    · subst hj
      rw [recs_setPid_self, List.tail_modifyHead] at he
      exact htails _ e he
    · rw [recs_setPid_ne hj] at he
      exact htails j e he
  | _ => exact htails j e he

end

section

variable {env : Env} {k : Str} {begun begun' : Prop} {v v' : Conf} {l : Label}

theorem Tending.frame (h : Tending k begun v) (hrecs : recs k v'.store.coll = recs k v.store.coll)
    (hlive : v'.store.os.live k = v.store.os.live k)
    (hth : ∀ τ c, v'.thread τ = some c → v.thread τ = some c ∨ c.window ≠ some k)
    (hkeep : ∀ τ c, v.thread τ = some c → c.window = some k → v'.thread τ = some c)
    (hdead : ∀ d, Dead k d v → v'.store.os.alive d.pid = false ∧ (∀ τ, v'.ledger.claim τ ≠ some d.pid) ∧
      ∀ j, ∀ e ∈ (recs j v'.store.coll).tail, e.pid ≠ d.pid)
    (howing : ∀ d, Dead k d v → (begun → Owing d.pid v) → begun' → Owing d.pid v') :
    Tending k begun' v' := by
  have hwindow : ∀ {τ c}, (∀ τ c, v.thread τ = some c → c.window ≠ some k) → v'.thread τ = some c →
      c.window ≠ some k := by
    intro τ c hnone ht
    exact (hth τ c ht).elim (hnone τ c) id
  rcases h with ⟨d, hd, hbegun⟩ | ⟨τ, d, hr⟩ | ⟨d, hr⟩
  · obtain ⟨halive, hunclaimed, htails⟩ := hdead d hd
    refine .inl ⟨d, ⟨hrecs.trans hd.recs, hlive.trans hd.live, halive, fun τ c => hwindow hd.window,
      hunclaimed, htails⟩, howing d hd hbegun⟩
  · obtain ⟨c, hc, hw, hl⟩ := hr.thread
    refine .inr (.inl ⟨τ, d, hrecs.trans hr.recs, ⟨c, hkeep τ c hc hw, hw, hlive.trans hl⟩, ?_⟩)
    intro σ b hb hwb
    rcases hth σ b hb with hb | hb
    · exact hr.alone σ b hb hwb
    · exact absurd hwb hb
  · exact .inr (.inr ⟨d, hrecs.trans hr.recs, hlive.trans hr.live, fun τ c => hwindow hr.window⟩)

theorem Tending.respawn (h : Tending k begun v) {τ : Tid} {ch : Choice} {c c' : Ctl} {st' : Store}
    (ht : v.thread τ = some c) (hstep : CStep env v.store c ch c' st') (hw : c.window = some k)
    (hfork : ch ≠ .forkFail) :
    Tending k begun' { v with thread := update v.thread τ (some c'), store := st' } := by
  rcases h with ⟨d, hd, -⟩ | ⟨σ, d, hr⟩ | ⟨d, hr⟩
  · exact absurd hw (hd.window τ c ht)
  · obtain rfl := hr.alone τ c ht hw
    obtain ⟨c₀, hc₀, -, hlive⟩ := hr.thread
    obtain rfl : c = c₀ := Option.some.inj (ht.symm.trans hc₀)
    rcases hstep.in_window hw hfork with ⟨x, -, hpend, hw', hpend', hcoll, hlive'⟩ |
      ⟨x, hpend, hw', hcoll, hos⟩
    · refine .inr (.inl ⟨τ, d, ?_, ⟨c', update_self .., hw', ?_⟩, fun σ b hb hwb => ?_⟩)
      · exact (congrArg (recs k) hcoll).trans hr.recs
      · show st'.os.live k = _
        rw [hlive', hlive, hpend, hpend']
        rfl
      · rcases of_update_some hb with ⟨hσ, -⟩ | ⟨-, hb⟩
        · exact hσ
        · exact hr.alone σ b hb hwb
    · refine .inr (.inr ⟨{ d with pid := x }, ?_, ?_, fun σ b hb => ?_⟩)
      · show recs k st'.coll = _
        rw [hcoll, recs_setPid_self, hr.recs]
        rfl
      · show st'.os.live k = _
        rw [hos, hlive, hpend]
        rfl
      · rcases of_update_some hb with ⟨-, rfl⟩ | ⟨hσ, hb⟩
        · rw [hw']
          exact nofun
        · exact fun hwb => hσ (hr.alone σ b hb hwb)
  · exact absurd hw (hr.window τ c ht)

theorem Tending.enter (h : Tending k begun v) {τ : Tid} {c' : Ctl} {d : Doc}
    (hd : d ∈ recs k v.store.coll) (hdead : v.store.os.alive d.pid = false)
    (halone : ∀ σ b, v.thread σ = some b → b.window ≠ some k) (hw : c'.window = some k)
    (hpend : c'.pending = none) :
    Tending k begun' { v with thread := update v.thread τ (some c') } := by
  rcases h with ⟨e, he, -⟩ | ⟨σ, e, hr⟩ | ⟨e, hr⟩
  · refine .inr (.inl ⟨τ, e, he.recs, ⟨c', update_self .., hw, ?_⟩, fun σ b hb hwb => ?_⟩)
    · rw [hpend]
      exact he.live
    · rcases of_update_some hb with ⟨hσ, -⟩ | ⟨-, hb⟩
      · exact hσ
      · exact absurd hwb (halone σ b hb)
  · obtain ⟨b, hb, hwb, -⟩ := hr.thread
    exact absurd hwb (halone σ b hb)
  · rw [hr.recs] at hd
    obtain rfl := List.mem_singleton.mp hd
    have hmem : d.pid ∈ v.store.os.live k := hr.live ▸ List.mem_singleton_self _
    rw [alive_of_live hmem] at hdead
    cases hdead

end

namespace Tended

variable {env : Env} {k : Str} {begun begun' : Prop} {v v' : Conf} {l : Label}

theorem window_of_target (hsid : env.KeepsSids) (h : Tended env k v) {τ : Tid} {c : Ctl} (ht : v.thread τ = some c)
    (hk : c.target = some k) : c.window = some k := by
  cases τ with
  | worker i =>
    obtain ⟨ev, hev, hserves⟩ := h.probed.fits.worker i c ht
    obtain ⟨q, hq⟩ := h.probed.fits.front i ev hev
    have hreload := h.reloads i ev (hq ▸ List.mem_cons_self)
    cases c with
    | spawnFork p | spawnInsert p =>
      exact absurd hserves.1 (hreload (hserves.2.symm.trans (Option.some.inj hk))).1
    | removeDelete p => exact absurd hserves.1 (hreload ((hsid.key hserves.2).symm.trans (Option.some.inj hk))).2
    | _ => exact hk
  | sched =>
    have hscan := h.probed.fits.sched c ht
    cases c with
    | spawnFork | spawnInsert | removeDelete => exact hscan.elim
    | _ => exact hk

theorem kill_ne (hsid : env.KeepsSids) (h : Tended env k v) {τ : Tid} {p : ProcessInfo}
    (ht : v.thread τ = some (.removeKill p)) :
    cStr p.sid ≠ k := by
  intro hk
  cases τ with
  | worker i =>
    obtain ⟨ev, hev, hty, hkey⟩ := h.probed.fits.worker i _ ht
    obtain ⟨q, hq⟩ := h.probed.fits.front i ev hev
    exact (h.reloads i ev (hq ▸ List.mem_cons_self) ((hsid.key hkey).symm.trans hk)).2 hty
  | sched => exact h.probed.fits.sched _ ht

theorem live_other (hsid : env.KeepsSids) (h : Tended env k v) {τ : Tid} {ch : Choice} {c c' : Ctl} {st' : Store}
    (ht : v.thread τ = some c) (hstep : CStep env v.store c ch c' st') (hk : c.target ≠ some k) :
    st'.os.live k = v.store.os.live k := by
  obtain ⟨-, hlive | ⟨p, rfl, hlive⟩⟩ := hstep.other hk
  · exact hlive
  · have hforeign : v.Foreign k p.pid := .inr ⟨τ, _, ht, if_neg (h.kill_ne hsid ht)⟩
    rw [hlive, ← live_drop]
    exact live_drop_of_not_mem (h.apart _ hforeign)

theorem move (hsid : env.KeepsSids) (h : Tended env k v) (hm : Moves env v l v') (hdb : l.dbOk = true)
    (hfresh : ∀ p, l.claimed = some p → p ∉ v.store.os.used)
    (hput : ∀ ev, l = .put ev → ev.key = k → ev.type ≠ .createProcess ∧ ev.type ≠ .removeProcess) :
    Tended env k v' := by
  refine ⟨h.probed.move hm hdb hfresh, ?_, fun i ev hev hk => ?_⟩
  · cases hm with
    | call ht hc =>
      refine Apart.call hsid h.apart h.probed ht (h.probed.fits.cstep ht hdb hc) fun p hp => hfresh p ?_
      rw [hp]
      rfl
    | front =>
      refine h.apart.frame rfl (fun _ => id) fun τ c hc => ?_
      rcases of_update_some hc with ⟨-, rfl⟩ | ⟨-, hc⟩
      · exact .inr (Ctl.foreign_start k _)
      · exact .inl hc
    | detect =>
      refine h.apart.frame rfl (fun _ => id) fun τ c hc => ?_
      rcases of_update_some hc with ⟨-, rfl⟩ | ⟨-, hc⟩
      · exact .inr rfl
      · exact .inl hc
    | pop | detectEnd => exact h.apart.frame rfl (fun _ => id) fun τ c hc => .inl (of_update_none hc).2
    | put | abort => exact h.apart.frame rfl (fun _ => id) fun τ c hc => .inl hc
    | die =>
      refine h.apart.frame rfl (fun p hp => ?_) fun τ c hc => .inl hc
      replace hp := live_drop ▸ hp
      exact (List.mem_filter.mp hp).1
    | appear =>
      refine h.apart.frame rfl (fun p hp => ?_) fun τ c hc => .inl hc
      exact live_add_unowned v.store.os _ k ▸ hp
  · rcases hm.mem_queue hev with hev | hl
    · exact h.reloads i ev hev hk
    · exact hput ev hl hk

theorem call_other (hsid : env.KeepsSids) (h : Tended env k v) (hph : Tending k begun v) {τ : Tid} {ch : Choice}
    {c c' : Ctl}
    {st' : Store} (ht : v.thread τ = some c) (hstep : CStep env v.store c ch c' st')
    (hk : c.target ≠ some k) (hw' : c'.window ≠ some k) (hfork : ch ≠ .forkFail)
    (hfresh : ∀ p, ch = .pid p → p ∉ v.store.os.used) (hbegun : begun' → begun) :
    Tending k begun' { v with thread := update v.thread τ (some c'), store := st' } := by
  have hpending : ∀ {d}, Dead k d v → c.pending ≠ some d.pid := by
    intro d hd hc
    exact hd.unclaimed τ ((congrArg (Option.bind · Ctl.pending) ht).trans hc)
  refine hph.frame (hstep.other hk).1 (h.live_other hsid ht hstep hk) (fun σ b hb => ?_) (fun σ b hb hwb => ?_)
    (fun d hd => ⟨?_, fun σ hσ => ?_, hstep.tails (hpending hd) hd.tails⟩) fun d hd how hb => ?_
  · rcases of_update_some hb with ⟨-, rfl⟩ | ⟨-, hb⟩
    · exact .inr hw'
    · exact .inl hb
  · have hσ : σ ≠ τ := by
      rintro rfl
      obtain rfl := Option.some.inj (ht.symm.trans hb)
      exact hk (Ctl.target_of_window hwb)
    exact (update_of_ne hσ ..).trans hb
  · refine Bool.eq_false_iff.mpr fun halive => ?_
    rcases hstep.alive_new halive with halive | hch
    · rw [hd.dead] at halive
      cases halive
    · exact hfresh _ hch (h.probed.covered.coll d hd.mem)
  · rcases Ledger.claim_of_change (change_of_cstep ht hstep) hσ with hσ | hl
    · exact hd.unclaimed σ hσ
    · cases ch with
      | pid p =>
        cases hl
        exact hfresh _ rfl (h.probed.covered.coll d hd.mem)
      | _ => cases hl
  · obtain ⟨b, hb, howes⟩ := how (hbegun hb)
    cases τ with
    | worker i =>
      refine ⟨b, hb, howes.imp id fun hle => ?_⟩
      exact (hstep.owed_le (hpending hd)).trans hle
    | sched =>
      obtain rfl := Option.some.inj (ht.symm.trans hb)
      have hnext : update v.thread .sched (some c') .sched = some c' := update_self ..
      exact ⟨c', hnext, hstep.owes hsid (h.probed.fits.sched c ht) howes hfork hd.dead (hpending hd)
        ⟨d, hd.mem, rfl⟩ hd.tails h.probed.sids⟩

theorem call (hsid : env.KeepsSids) (h : Tended env k v) (hph : Tending k begun v) {τ : Tid} {ch : Choice}
    {c c' : Ctl} {st' : Store}
    (ht : v.thread τ = some c) (hstep : CStep env v.store c ch c' st') (hch : ch ≠ .forkFail)
    (hfresh : ∀ p, ch = .pid p → p ∉ v.store.os.used)
    (hfinds : ∀ d, c.Finds v.store.coll d → d.sid = k →
      v.store.os.alive d.pid = false ∧ ∀ σ b, v.thread σ = some b → b.window ≠ some k)
    (hbegun : begun' → begun) :
    Tending k begun' { v with thread := update v.thread τ (some c'), store := st' } := by
  by_cases hw : c.window = some k
  · exact hph.respawn ht hstep hw hch
  · by_cases hw' : c'.window = some k
    · obtain ⟨rfl, hpend, d, hd, hkey⟩ := (hstep.window hsid hw').resolve_left hw
      have hmem : d ∈ v.store.coll := by
        cases c with
        | reloadQuery sid => exact (recs_head hd).1
        | detectLookup r rest => exact (of_find?_pid hd).1
        | _ => exact hd.elim
      have hdk : d.sid = k := (h.probed.sids d hmem).symm.trans hkey
      obtain ⟨hdead, halone⟩ := hfinds d hd hdk
      exact hph.enter (mem_recs.mpr ⟨hmem, hdk⟩) hdead halone hw' hpend
    · exact h.call_other hsid hph ht hstep (fun hk => hw (h.window_of_target hsid ht hk)) hw' hch hfresh hbegun

theorem tending (hsid : env.KeepsSids) (h : Tended env k v) (hph : Tending k begun v) (hm : Moves env v l v')
    (hdb : l.dbOk = true)
    (hfork : ∀ τ, l ≠ .call τ .forkFail) (hfresh : ∀ p, l.claimed = some p → p ∉ v.store.os.used)
    (happear : ∀ p, l = .appear p → p ∉ v.store.os.used) (hdie : ∀ p, l = .die p → p ∉ v.store.os.live k)
    (hfinds : ∀ τ ch c d, l = .call τ ch → v.thread τ = some c → c.Finds v.store.coll d → d.sid = k →
      v.store.os.alive d.pid = false ∧ ∀ σ b, v.thread σ = some b → b.window ≠ some k)
    (hbegun : begun' → begun ∨ l = .detect) : Tending k begun' v' := by
  have hused : ∀ {d}, Dead k d v → d.pid ∈ v.store.os.used := fun hd => h.probed.covered.coll _ hd.mem
  have hclaim : ∀ {d}, Dead k d v → ∀ τ, v'.ledger.claim τ ≠ some d.pid := by
    intro d hd τ hτ
    rcases Ledger.claim_of_change (change_of_moves h.probed.fits hm hdb) hτ with hτ | hl
    · exact hd.unclaimed τ hτ
    · exact hfresh _ hl (hused hd)
  cases hm with
  | @call τ ch c c' st' ht hc =>
    have hstep := h.probed.fits.cstep ht hdb hc
    have hch : ch ≠ .forkFail := fun heq => hfork τ (heq ▸ rfl)
    refine h.call hsid hph ht hstep hch (fun p hp => hfresh p ?_) (fun d hd hdk => hfinds τ ch c d rfl ht hd hdk)
      fun hb => (hbegun hb).resolve_right nofun
    rw [hp]
    rfl
  | front hidle hq =>
    refine hph.frame rfl rfl (fun τ c hc => ?_) (fun τ c hc hw => ?_)
      (fun d hd => ⟨hd.dead, hclaim hd, hd.tails⟩) fun d hd how hb => how ((hbegun hb).resolve_right nofun)
    · rcases of_update_some hc with ⟨-, rfl⟩ | ⟨-, hc⟩
      · right
        rw [Ctl.window_start]
        exact nofun
      · exact .inl hc
    · refine (update_of_ne ?_ ..).trans hc
      rintro rfl
      rw [h.probed.fits.idle hidle] at hc
      cases hc
  | pop hev ht hq =>
    refine hph.frame rfl rfl (fun τ c hc => .inl (of_update_none hc).2) (fun τ c hc hw => ?_)
      (fun d hd => ⟨hd.dead, hclaim hd, hd.tails⟩) fun d hd how hb => how ((hbegun hb).resolve_right nofun)
    refine (update_of_ne ?_ ..).trans hc
    rintro rfl
    obtain rfl := Option.some.inj (ht.symm.trans hc)
    cases hw
  | put | abort =>
    exact hph.frame rfl rfl (fun τ c hc => .inl hc) (fun τ c hc _ => hc)
      (fun d hd => ⟨hd.dead, hclaim hd, hd.tails⟩) fun d hd how hb => how ((hbegun hb).resolve_right nofun)
  | detect ht =>
    refine hph.frame rfl rfl (fun τ c hc => ?_) (fun τ c hc hw => ?_)
      (fun d hd => ⟨hd.dead, hclaim hd, hd.tails⟩) fun d hd how hb => ⟨.detectFind, rfl, .inl rfl⟩
    · rcases of_update_some hc with ⟨-, rfl⟩ | ⟨-, hc⟩
      · exact .inr nofun
      · exact .inl hc
    · refine (update_of_ne ?_ ..).trans hc
      rintro rfl
      rw [ht] at hc
      cases hc
  | detectEnd ht =>
    refine hph.frame rfl rfl (fun τ c hc => .inl (of_update_none hc).2) (fun τ c hc hw => ?_)
      (fun d hd => ⟨hd.dead, hclaim hd, hd.tails⟩) fun d hd how hb => ?_
    · refine (update_of_ne ?_ ..).trans hc
      rintro rfl
      obtain rfl := Option.some.inj (ht.symm.trans hc)
      cases hw
    · obtain ⟨c, hc, howes⟩ := how ((hbegun hb).resolve_right nofun)
      obtain rfl := Option.some.inj (ht.symm.trans hc)
      exact absurd howes (not_owes_done hd.mem rfl)
  | @die p =>
    refine hph.frame rfl (live_drop_of_not_mem (hdie p rfl)) (fun τ c hc => .inl hc) (fun τ c hc _ => hc)
      (fun d hd => ⟨?_, hclaim hd, hd.tails⟩) fun d hd how hb => how ((hbegun hb).resolve_right nofun)
    exact Bool.eq_false_iff.mpr fun halive => Bool.eq_false_iff.mp hd.dead (alive_of_drop halive)
  | @appear p =>
    refine hph.frame rfl (live_add_unowned ..) (fun τ c hc => .inl hc) (fun τ c hc _ => hc)
      (fun d hd => ⟨?_, hclaim hd, hd.tails⟩) fun d hd how hb => how ((hbegun hb).resolve_right nofun)
    refine Bool.eq_false_iff.mpr fun halive => ?_
    rcases alive_of_add halive with halive | hpid
    · exact Bool.eq_false_iff.mp hd.dead halive
    · replace hpid : p = d.pid := hpid
      exact happear p rfl (hpid ▸ hused hd)

end Tended

/-! ### Runs -/

section

variable {env : Env} {k : Str} {s : Sys Ctl} {l : Label}

theorem mem_tids {σ : Tid} {c : Ctl} (h : s.thread σ = some c) : σ ∈ s.tids := by
  cases σ with
  | worker i =>
    obtain ⟨⟨ev, b⟩, hjob, -⟩ := Option.map_eq_some_iff.mp h
    have hi := (List.getElem?_eq_some_iff.mp (Sys.getElem?_of_job hjob)).1
    exact List.mem_cons_of_mem _ (List.mem_map_of_mem (List.mem_range.mpr hi))
  | sched => exact List.mem_cons_self

theorem alone_of_looksAlone (h : s.looksAlone (points env) k l = true) {τ : Tid} {ch : Choice} {c : Ctl}
    {d : Doc} (hl : l = .call τ ch) (ht : s.thread τ = some c) (hfinds : c.Finds s.coll d) (hk : d.sid = k) :
    s.os.alive d.pid = false ∧ ∀ σ b, s.thread σ = some b → b.window ≠ some k := by
  subst hl
  obtain ⟨q, hnext, hfind⟩ : ∃ q, s.next (points env) τ = some (.findOne q) ∧
      s.coll.find? q.matches = some d := by
    cases c with
    | reloadQuery sid => exact ⟨_, congrArg (Option.bind · _) ht, (find?_sid _ _).trans hfinds⟩
    | detectLookup r rest => exact ⟨_, congrArg (Option.bind · _) ht, hfinds⟩
    | _ => exact hfinds.elim
  simp only [Sys.looksAlone, hnext, hfind, decide_eq_true_eq] at h
  obtain ⟨hdead, halone⟩ := h hk
  refine ⟨hdead, fun σ b hb hw => ?_⟩
  have hany := halone σ (mem_tids hb)
  rw [next_window hb hw] at hany
  cases hany

end

theorem looksAlone_map {env : Env} {k : Str} (s : Sys Ctl) (l : Label) :
    (s.map (Ctl.code env)).looksAlone (service env) k l = s.looksAlone (points env) k l := by
  have hnext := Sys.next_map (points_hom env).view s
  have htids : (s.map (Ctl.code env)).tids = s.tids := by
    unfold Sys.tids
    rw [show (s.map (Ctl.code env)).workerList.length = s.workerList.length from List.length_map _]
  cases l with
  | call τ ch => simp only [Sys.looksAlone, hnext, htids, Sys.map_coll, Sys.map_os]
  | _ => rfl

theorem freshFork_of_freshPids {T : Type} {s : Sys T} {l : Label} (h : s.freshPids l = true) :
    s.freshFork l = true := by
  cases l with
  | call τ ch =>
    cases ch with
    | pid p => exact h
    | _ => rfl
  | _ => rfl

theorem dead_of_crashed {env : Env} {k : Str} {s : Sys Ctl} (hapart : s.conf.ledger.Apart)
    (h : s.Crashed (points env) k) : ∃ d, Dead k d s.conf := by
  obtain ⟨d, hd, hdead⟩ := h.dead
  refine ⟨d, hd, h.none, hdead, fun τ c hc hw => ?_, fun τ hτ => ?_, fun j e he => ?_⟩
  · have hany := h.calm τ
    rw [next_window hc hw] at hany
    cases hany
  · have hrec : d ∈ recs k s.coll := hd ▸ List.mem_singleton_self d
    exact hapart.notBooked τ _ hτ (List.mem_map_of_mem (mem_recs.mp hrec).1)
  · have hlen := h.unique j
    have htail : (recs j s.coll).tail = [] := by
      apply List.eq_nil_of_length_eq_zero
      rw [List.length_tail]
      omega
    rw [show (recs j s.conf.store.coll).tail = [] from htail] at he
    cases he

/-- **A crashed stream gets exactly one replacement** from a scheduler pass and any number of reloads, when
every look that leads to a respawn finds the recorded process dead and no respawn of the sid going on, and
sids come back. -/
theorem one_replacement {env : Env} {W : Nat} {coll : List Doc} {os : Os} {ls₀ ls : List Label}
    {s₀ s : Sys (Act Int)} {k : Str} (hcoll : Written coll os) (hintact : ∀ d ∈ coll, d.intact env ["sid"] = true)
    (h₀ : Runs (step (service env))
      (fun t l => (l.dbOk = true ∧ t.freshFork l = true) ∧ l.intact env ["sid"] = true) (Sys.boot W coll os) ls₀ s₀)
    (hcrashed : s₀.Crashed (service env) k)
    (h : Runs (step (service env))
      (fun t l => (l.dbOk = true ∧ l.forkOk = true ∧ t.freshPids l = true ∧ l.onlyReloads k = true ∧
        t.spares k l = true) ∧ t.looksAlone (service env) k l = true ∧ l.intact env ["sid"] = true) s₀ ls s)
    (hpass : .detect ∈ ls) (hsched : s.sched = none) (hdone : ∀ i, ∀ ev ∈ s.queue i, ev.key ≠ k) :
    ∃ d, recs k s.coll = [d] ∧ s.os.live k = [d.pid] := by
  have hrec := recording_of_runs hintact (fun _ _ hok => hok.2) h₀
  replace h := hrec.runs_keep (fun _ _ hok => hok.2.2) h
  replace h₀ := runs_keep hintact (fun _ _ hok => hok.2) h₀
  have hsid := keep_sids env
  replace h : Runs (step (service (env.keep ["sid"])))
      (fun t l => (l.dbOk = true ∧ l.forkOk = true ∧ t.freshPids l = true ∧ l.onlyReloads k = true ∧
        t.spares k l = true) ∧ t.looksAlone (service (env.keep ["sid"])) k l = true) s₀ ls s :=
    h.mono fun _ _ hok => ⟨hok.1, hok.2.1⟩
  replace hcrashed : s₀.Crashed (service (env.keep ["sid"])) k :=
    ⟨hcrashed.unique, hcrashed.dead, hcrashed.none, hcrashed.queues, hcrashed.calm⟩
  clear hintact hrec
  generalize env.keep ["sid"] = env at h₀ h hsid hcrashed
  rw [← Sys.map_boot (Ctl.code env)] at h₀
  obtain ⟨t₀, rfl, hrun₀⟩ := runs_points h₀
  obtain ⟨t, rfl, hrun⟩ := runs_points h
  have hprobed := probed_of_runs hcoll hrun₀ fun _ _ hok => hok.1
  have hapart := apart_of_runs hcoll hrun₀ fun _ _ hok => hok.1
  have hcrashed₀ : t₀.Crashed (points env) k :=
    ⟨hcrashed.unique, hcrashed.dead, hcrashed.none,
      fun i ev hev => hcrashed.queues i ev ((Sys.map_queue _ t₀ i).symm ▸ hev),
      fun τ => Sys.next_map (points_hom env).view t₀ τ ▸ hcrashed.calm τ⟩
  obtain ⟨d₀, hdead⟩ := dead_of_crashed hapart hcrashed₀
  have hinv : Tended env k t.conf ∧ Tending k (.detect ∈ ls) t.conf := by
    refine hrun.invTrace (fun ls u => Tended env k u.conf ∧ Tending k (.detect ∈ ls) u.conf)
      ⟨⟨hprobed, ?_, hcrashed₀.queues⟩, .inl ⟨d₀, hdead, nofun⟩⟩ ?_
    · intro p _ hp
      rw [hdead.live] at hp
      cases hp
    · rintro ls u l u' ⟨htended, htending⟩ ⟨⟨hdb, hfork, hfresh, hput, hspare⟩, hlooks⟩ hstep
      rw [looksAlone_map] at hlooks
      have hm := moves_of_step hstep
      have hclaimed := claimed_fresh (freshFork_of_freshPids hfresh)
      refine ⟨htended.move hsid hm hdb hclaimed ?_, htended.tending hsid htending hm hdb ?_ hclaimed ?_ ?_ ?_ ?_⟩
      · rintro ev rfl
        exact of_decide_eq_true hput
      · rintro τ rfl
        cases hfork
      · rintro p rfl
        exact of_decide_eq_true hfresh
      · rintro p rfl
        exact of_decide_eq_true hspare
      · intro τ ch c d hl ht hfinds hk
        exact alone_of_looksAlone hlooks hl ht hfinds hk
      · intro hmem
        exact (List.mem_append.mp hmem).imp id fun hl => (List.mem_singleton.mp hl).symm
  have hnosched : t.conf.thread .sched = none := Option.map_eq_none_iff.mp hsched
  rcases hinv.2 with ⟨d, -, howing⟩ | ⟨τ, d, hr⟩ | ⟨d, hr⟩
  · obtain ⟨c, hc, -⟩ := howing hpass
    rw [hnosched] at hc
    cases hc
  · obtain ⟨c, hc, hw, -⟩ := hr.thread
    cases τ with
    | worker i =>
      obtain ⟨ev, hev, hserves⟩ := hinv.1.probed.fits.worker i c hc
      obtain ⟨q, hq⟩ := hinv.1.probed.fits.front i ev hev
      have hmem : ev ∈ (t.map (Ctl.code env)).queue i := by
        rw [Sys.map_queue, show t.queue i = ev :: q from hq]
        exact List.mem_cons_self
      cases c with
      | reloadFork p | reloadUpdate p =>
        exact absurd ((hsid.key hserves.2).symm.trans (Option.some.inj hw)) (hdone i ev hmem)
      | detectFork | detectUpdate => exact hserves.elim
      | _ => cases hw
    | sched =>
      rw [hnosched] at hc
      cases hc
  · exact ⟨d, hr.recs, hr.live⟩

/-! ### Two replacements -/

/-- One stream with its record, whose process is gone. -/
def deadStream : Sys (Act Int) := Sys.boot (1 : Nat) [sampleDoc [1] 10] ⟨[], [10]⟩

theorem deadStream_crashed : deadStream.Crashed (service sampleEnv) [1] where
  unique j := by
    refine (List.Sublist.length_le (Keyed.slot_sublist _ j _)).trans ?_
    decide
  dead := ⟨sampleDoc [1] 10, by decide, by decide⟩
  none := by decide
  queues i := by
    match i with
    | 0 => exact nofun
    | _ + 1 => exact nofun
  calm τ := by
    match τ with
    | .worker 0 => rfl
    | .worker (_ + 1) => rfl
    | .sched => rfl

theorem deadStream_written : Written [sampleDoc [1] 10] ⟨[], [10]⟩ := ⟨by decide, by decide⟩

/-- A pass and a reload both find the record before either forks. -/
def reloadDuringPass : List Label :=
  [.put (reloadEvent [1]), .detect, .call .sched .ok, .call .sched .ok, .call .sched .ok, .front 0,
    .call (.worker 0) .ok, .call .sched (.pid 11), .call (.worker 0) (.pid 12), .call .sched .ok,
    .call (.worker 0) .ok, .pop 0, .detectEnd]

def reloadDuringPassEnd : Sys (Act Int) :=
  (check (step (service sampleEnv))
    (fun t l => l.dbOk = true ∧ l.forkOk = true ∧ t.freshPids l = true ∧ l.onlyReloads [1] = true ∧
      t.spares [1] l = true) reloadDuringPass deadStream).get (by decide)

theorem two_replacements :
    ¬ ∀ (env : Env) (W : Nat) (coll : List Doc) (os : Os) (ls₀ ls : List Label) (s₀ s : Sys (Act Int)) (k : Str),
      Written coll os →
      Runs (step (service env)) (fun t l => l.dbOk = true ∧ t.freshFork l = true) (Sys.boot W coll os) ls₀ s₀ →
      s₀.Crashed (service env) k →
      Runs (step (service env))
        (fun t l => l.dbOk = true ∧ l.forkOk = true ∧ t.freshPids l = true ∧ l.onlyReloads k = true ∧
          t.spares k l = true) s₀ ls s →
      .detect ∈ ls → s.sched = none → (∀ i, ∀ ev ∈ s.queue i, ev.key ≠ k) →
      ∃ d, recs k s.coll = [d] ∧ s.os.live k = [d.pid] := by
  intro h
  have hsched : reloadDuringPassEnd.sched = none := Option.isNone_iff_eq_none.mp (by decide)
  have hqueue : ∀ i, ∀ ev ∈ reloadDuringPassEnd.queue i, ev.key ≠ [1] := by
    intro i
    match i with
    | 0 => decide
    | _ + 1 => exact nofun
  obtain ⟨d, -, hlive⟩ := h sampleEnv 1 _ _ [] reloadDuringPass deadStream reloadDuringPassEnd [1]
    deadStream_written .nil deadStream_crashed (runs_get _) (by decide) hsched hqueue
  have hlen : (reloadDuringPassEnd.os.live [1]).length = 1 := congrArg List.length hlive
  exact absurd hlen (by decide)

/-- The reload is executed between the snapshot of the pass and its probe. -/
def reloadBeforeProbe : List Label :=
  [.detect, .call .sched .ok, .put (reloadEvent [1]), .front 0, .call (.worker 0) .ok,
    .call (.worker 0) (.pid 11), .call (.worker 0) .ok, .pop 0, .call .sched .ok, .call .sched .ok, .detectEnd]

def reloadBeforeProbeEnd : Sys (Act Int) :=
  (check (step (service sampleEnv))
    (fun t l => (l.dbOk = true ∧ l.forkOk = true ∧ t.freshPids l = true ∧ l.onlyReloads [1] = true ∧
      t.spares [1] l = true) ∧ t.looksAlone (service sampleEnv) [1] l = true ∧
      l.intact sampleEnv ["sid"] = true) reloadBeforeProbe deadStream).get (by decide)

theorem one_replacement_reload :
    ∃ d, recs [1] reloadBeforeProbeEnd.coll = [d] ∧ reloadBeforeProbeEnd.os.live [1] = [d.pid] := by
  have hsched : reloadBeforeProbeEnd.sched = none := Option.isNone_iff_eq_none.mp (by decide)
  have hqueue : ∀ i, ∀ ev ∈ reloadBeforeProbeEnd.queue i, ev.key ≠ [1] := by
    intro i
    match i with
    | 0 => decide
    | _ + 1 => exact nofun
  exact one_replacement (W := 1) deadStream_written (by decide) (.nil : Runs _ _ _ [] deadStream) deadStream_crashed
    (runs_get _) (by decide) hsched hqueue

end PullStream
