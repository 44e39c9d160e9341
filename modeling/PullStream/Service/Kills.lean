import PullStream.Service.Recovery
/-!
# What is killed

`remove_process` kills the pid of a record, and between the look at the record and the `kill` the process may end by
itself and the record may be changed or removed by others. On one host, as long as the system does not give a pid a
second time, the signal still meets no process but one that was forked for the stream that is being stopped, whatever
calls fail and however the parties interleave, if the sids come back from the store as they are
(`kills_only_the_stream`). What carries this is that every pid that is
recorded or that a thread holds for a sid is the pid of no process but those of the sid (`Belongs`), now and later,
since it has been used.
-/

namespace PullStream

open Function Transition Family ServerBiz ProcessCtl

/-- The pid is used, and no process has it but those of the sid. -/
def Belongs (os : Os) (k : Str) (p : Int) : Prop := p ∈ os.used ∧ ∀ a ∈ os.procs, a.pid = p → a.runs k = true

/-- The process information whose pid a thread holds, as that of a process of its stream. -/
def Ctl.holds : Ctl → List ProcessInfo
  | .spawnInsert p | .removeDelete p | .removeKill p | .reloadUpdate p | .detectUpdate p _ => [p]
  | _ => []

/-- Every pid that is recorded, or held by a thread, belongs to its stream. -/
structure Conf.Kept (v : Conf) : Prop where
  coll : ∀ d ∈ v.store.coll, Belongs v.store.os (cStr d.sid) d.pid
  thread : ∀ τ c, v.thread τ = some c → ∀ p ∈ c.holds, Belongs v.store.os (cStr p.sid) p.pid

section

variable {env : Env} {os : Os} {k : Str} {p x : Int} {st st' : Store} {c c' : Ctl} {ch : Choice} {v v' : Conf}
  {l : Label}

theorem Belongs.drop (h : Belongs os k p) (x : Int) : Belongs (os.drop x) k p :=
  ⟨h.1, fun a ha => h.2 a (List.mem_of_mem_filter ha)⟩

theorem Belongs.add (h : Belongs os k p) {a : Proc} (ha : a.pid ∉ os.used) : Belongs (os.add a) k p := by
  refine ⟨List.mem_append_left _ h.1, fun b hb hp => ?_⟩
  rcases List.mem_append.mp hb with hb | hb
  · exact h.2 b hb hp
  · obtain rfl := List.mem_singleton.mp hb
    exact absurd (hp ▸ h.1) ha

theorem belongs_forked {info : ProcessInfo} (hfree : os.alive x = false) :
    Belongs (os.add ⟨x, some info⟩) (cStr info.sid) x := by
  refine ⟨List.mem_append_right _ (List.mem_singleton_self x), fun b hb hp => ?_⟩
  rcases List.mem_append.mp hb with hb | hb
  · have halive : os.alive x = true := alive_iff.mpr ⟨b, hb, hp⟩
    rw [hfree] at halive
    cases halive
  · obtain rfl := List.mem_singleton.mp hb
    exact runs_iff.mpr ⟨info, rfl, rfl⟩

@[simp] theorem holds_detectNext (l : List ProcessInfo) : (Ctl.detectNext l).holds = [] := by
  cases l <;> rfl

@[simp] theorem holds_start (ev : Event) : (Ctl.start ev).holds = [] := by
  unfold Ctl.start
  cases ev.type <;> rfl

theorem FStep.holds (h : FStep c c') : ∀ p ∈ c'.holds, p ∈ c.holds := by
  intro p hp
  cases h with
  | lookup | detectUpdate =>
    rw [holds_detectNext] at hp
    cases hp
  | _ => first | exact hp | cases hp

theorem CStep.os_cases (h : CStep env st c ch c' st') :
    st'.os = st.os ∨ (∃ x, st'.os = st.os.drop x) ∨
      ∃ x info, ch = .pid x ∧ st.os.alive x = false ∧ st'.os = st.os.add ⟨x, some info⟩ := by
  cases h with
  | kill => exact .inr (.inl ⟨_, rfl⟩)
  | spawnForked hx hfree | reloadForked hx hfree | detectForked hx hfree => exact .inr (.inr ⟨_, _, rfl, hfree, rfl⟩)
  | _ => exact .inl rfl

theorem CStep.belongs (h : CStep env st c ch c' st') (hfresh : ∀ x, ch = .pid x → x ∉ st.os.used)
    (hp : Belongs st.os k p) : Belongs st'.os k p := by
  obtain hos | ⟨x, hos⟩ | ⟨x, info, hch, -, hos⟩ := h.os_cases
  · exact hos ▸ hp
  · exact hos ▸ hp.drop x
  · exact hos ▸ hp.add (hfresh x hch)

/-- **One call of a thread** records and holds only what belongs to its stream. -/
theorem CStep.keeps (hsid : env.KeepsSids) (h : CStep env st c ch c' st') (hfresh : ∀ x, ch = .pid x → x ∉ st.os.used)
    (hcoll : ∀ d ∈ st.coll, Belongs st.os (cStr d.sid) d.pid)
    (hc : ∀ p ∈ c.holds, Belongs st.os (cStr p.sid) p.pid) :
    (∀ d ∈ st'.coll, Belongs st'.os (cStr d.sid) d.pid) ∧ ∀ p ∈ c'.holds, Belongs st'.os (cStr p.sid) p.pid := by
  have hkeep : ∀ d ∈ st.coll, Belongs st'.os (cStr d.sid) d.pid := fun d hd => h.belongs hfresh (hcoll d hd)
  have hset : ∀ {q : ProcessInfo}, Belongs st.os (cStr q.sid) q.pid →
      ∀ d ∈ setPid (cStr q.sid) q.pid st.coll, Belongs st.os (cStr d.sid) d.pid := by
    intro q hq d hd
    rcases mem_setPid hd with hd | ⟨hsid, hpid⟩
    · exact hcoll d hd
    · rw [hsid, hpid, cStr_cStr]
      exact hq
  cases h with
  | spawnForked hx hfree | reloadForked hx hfree | detectForked hx hfree =>
    refine ⟨hkeep, fun q hq => ?_⟩
    obtain rfl := List.mem_singleton.mp hq
    exact belongs_forked hfree
  | @insert p =>
    refine ⟨fun d hd => ?_, nofun⟩
    rcases List.mem_append.mp hd with hd | hd
    · exact hcoll d hd
    · obtain rfl := List.mem_singleton.mp hd
      have hp := hc p List.mem_cons_self
      show Belongs st.os (cStr (cStr p.sid)) p.pid
      rwa [cStr_cStr]
  | @removeFound p d hd =>
    refine ⟨hkeep, fun q hq => ?_⟩
    obtain rfl := List.mem_singleton.mp hq
    have hd : Belongs st.os (cStr d.sid) d.pid := hcoll d (recs_head hd).1
    rwa [← hsid d.sid] at hd
  | @delete p => exact ⟨fun d hd => hcoll d (List.mem_of_mem_eraseP hd), hc⟩
  | reloadUpdate => exact ⟨hset (hc _ List.mem_cons_self), nofun⟩
  | detectUpdate => exact ⟨hset (hc _ List.mem_cons_self), by simp⟩
  | snapshot | probeAlive | lookupAbsent | detectForkFailed => exact ⟨hkeep, by simp⟩
  | _ => exact ⟨hkeep, nofun⟩

theorem Conf.Kept.move (hsid : env.KeepsSids) (h : v.Kept) (hm : Moves env v l v') (hfits : v.Fits env)
    (hfork : ∀ τ x, l = .call τ (.pid x) → x ∉ v.store.os.used)
    (happear : ∀ x, l = .appear x → x ∉ v.store.os.used) : v'.Kept := by
  cases hm with
  | put | abort => exact ⟨h.coll, h.thread⟩
  | front hidle hq =>
    refine ⟨h.coll, fun τ c hc => ?_⟩
    rcases of_update_some hc with ⟨-, rfl⟩ | ⟨-, hc⟩
    · simp
    · exact h.thread τ c hc
  | @call τ ch c c' st' ht hc =>
    by_cases hdb : ch = .dbFail
    · subst hdb
      obtain ⟨hfail, rfl⟩ := hc.fstep (hfits.parent ht)
      refine ⟨h.coll, fun σ c₁ hc₁ => ?_⟩
      rcases of_update_some hc₁ with ⟨rfl, rfl⟩ | ⟨-, hc₁⟩
      · exact fun p hp => h.thread σ c ht p (hfail.holds p hp)
      · exact h.thread σ c₁ hc₁
    · have hstep := hc.cstep (hfits.parent ht) hdb
      have hfresh : ∀ x, ch = .pid x → x ∉ v.store.os.used := fun x hx => hfork τ x (hx ▸ rfl)
      obtain ⟨hcoll, hholds⟩ := hstep.keeps hsid hfresh h.coll (h.thread τ c ht)
      refine ⟨hcoll, fun σ c₁ hc₁ => ?_⟩
      rcases of_update_some hc₁ with ⟨rfl, rfl⟩ | ⟨-, hc₁⟩
      · exact hholds
      · exact fun p hp => hstep.belongs hfresh (h.thread σ c₁ hc₁ p hp)
  | pop | detectEnd => exact ⟨h.coll, fun τ c hc => h.thread τ c (of_update_none hc).2⟩
  | detect ht =>
    refine ⟨h.coll, fun τ c hc => ?_⟩
    rcases of_update_some hc with ⟨-, rfl⟩ | ⟨-, hc⟩
    · exact nofun
    · exact h.thread τ c hc
  | die hp => exact ⟨fun d hd => (h.coll d hd).drop _, fun τ c hc p hp => (h.thread τ c hc p hp).drop _⟩
  | appear hp =>
    have hfresh := happear _ rfl
    exact ⟨fun d hd => (h.coll d hd).add hfresh, fun τ c hc p hp => (h.thread τ c hc p hp).add hfresh⟩

end

/-- **The service kills only what it stops**: a signal that a thread is about to send, but for the scheduler's test
whether a process exists, is that of a stop, and meets no process but those forked for the stream of the stop, if
sids come back. -/
theorem kills_only_the_stream {env : Env} {W : Int} {coll : List Doc} {os : Os} {ls : List Label} {s : Sys (Act Int)}
    (hcoll : ∀ d ∈ coll, Belongs os (cStr d.sid) d.pid) (hintact : ∀ d ∈ coll, d.intact env ["sid"] = true)
    (h : Runs (step (service env)) (fun s l => s.freshPids l = true ∧ l.intact env ["sid"] = true)
      (Sys.boot W coll os) ls s) {τ : Tid} {p : Int} {sig : Nat}
    (hnext : s.next (service env) τ = some (.kill p sig)) (hsig : sig ≠ 0) :
    ∃ i ev, τ = .worker i ∧ s.taken τ = some ev ∧ ev.type = .removeProcess ∧
      ∀ a ∈ s.os.procs, a.pid = p → ∃ info, a.owner = some info ∧ cStr info.sid = ev.key := by
  replace h := runs_keep hintact (fun _ _ hok => hok.2) h
  replace hnext : s.next (service (env.keep ["sid"])) τ = some (.kill p sig) := hnext
  have hsid := keep_sids env
  generalize env.keep ["sid"] = env' at h hsid hnext
  rw [← Sys.map_boot (Ctl.code env')] at h
  obtain ⟨u, rfl, hrun⟩ := runs_points h
  obtain ⟨hfits, hkept⟩ := hrun.inv (fun t => t.conf.Fits env' ∧ t.conf.Kept)
    ⟨fits_boot env' W coll os, hcoll, by simp⟩
    fun t l t' ht hl hstep => by
      have hm := moves_of_step hstep
      refine ⟨ht.1.move hm, ht.2.move hsid hm ht.1 (fun τ x he => ?_) fun x he => ?_⟩
      · subst he
        exact of_decide_eq_true hl.1
      · subst he
        exact of_decide_eq_true hl.1
  rw [Sys.next_map (points_hom env').view] at hnext
  obtain ⟨c, hc, hcall⟩ := Option.bind_eq_some_iff.mp hnext
  obtain ⟨q, rfl, rfl⟩ : ∃ q, c = .removeKill q ∧ q.pid = p := by
    cases c <;> cases hcall
    · exact ⟨_, rfl, rfl⟩
    · exact absurd rfl hsig
  cases τ with
  | sched => exact (hfits.sched _ hc).elim
  | worker i =>
    obtain ⟨ev, hev, hty, hkey⟩ := hfits.worker i _ hc
    have htaken : (u.map (Ctl.code env')).taken (.worker i) = some ev := by
      simpa [Sys.taken, Sys.conf] using hev
    refine ⟨i, ev, rfl, htaken, hty, fun a ha hp => ?_⟩
    have hkey : cStr q.sid = ev.key := hsid.key hkey
    have hruns := (hkept.thread (.worker i) _ hc q List.mem_cons_self).2 a ha hp
    exact runs_iff.mp (hkey ▸ hruns)

/-- A worker is about to kill the process of the stream that it stops. -/
def aboutToKill : Sys (Act Int) :=
  (check (step (service sampleEnv)) (fun s l => s.freshPids l = true ∧ l.intact sampleEnv ["sid"] = true)
    ([.put (startEvent [1]), .put (stopEvent [1])] ++ startLabels 0 10 ++ (stopLabels 1).take 3)
    (Sys.boot 2 [] ⟨[], []⟩)).get (by decide)

theorem kills_only_the_stream_one :
    ∃ i ev, Tid.worker 1 = .worker i ∧ aboutToKill.taken (.worker 1) = some ev ∧ ev.type = .removeProcess ∧
      ∀ a ∈ aboutToKill.os.procs, a.pid = 10 → ∃ info, a.owner = some info ∧ cStr info.sid = ev.key :=
  @kills_only_the_stream sampleEnv 2 [] ⟨[], []⟩ _ aboutToKill (List.forall_mem_nil _)
    (List.forall_mem_nil _) (runs_get _) (.worker 1) 10 sigkill (by decide) (by decide)

end PullStream
