import PullStream.Control.Requests
import PullStream.Service.Replies
import PullStream.Control.Intact
/-!
# Where processes and records come from

Whatever fails and however the parties interleave, a process that the service has forked, a record of the
collection and a process that a thread is about to fork are each one of a stream that a start request asked for,
in all but the pid: the sid, the two URLs, the type and the host (`SameStream`). So nothing is run that no client
has asked for with a request that passed the checks of `CRestApi::start` (`streams_were_requested`), provided that
these strings come back from the store as they are. The invariant is `Requested`, for the events that may be put.
-/

namespace PullStream

open Function Transition Family ServerBiz ProcessCtl RestApi

/-! ### Streams -/

/-- Two `_process_info` are of one stream: they agree in all that is stored but the pids. -/
structure SameStream (p q : ProcessInfo) : Prop where
  sid : cStr p.sid = cStr q.sid
  srcUrl : cStr p.srcUrl = cStr q.srcUrl
  destUrl : cStr p.destUrl = cStr q.destUrl
  type : p.type = q.type
  host : cStr p.host = cStr q.host

theorem SameStream.command_eq {p q : ProcessInfo} (h : SameStream p q) : command p = command q := by
  rw [command, command, h.srcUrl, h.destUrl]

/-- The members of a record that say which stream it is of. -/
def streamNames : List String := ["sid", "src_url", "dest_url", "host"]

theorem sameStream_seen (env : Env) (d : Doc) : SameStream (d.seen (env.keep streamNames).shown) d := by
  have hkeep (name : String) (s : Str) (h : name ∈ streamNames) :
      cStr ((env.keep streamNames).shown name s) = cStr s := congrArg cStr (keep_shown h s)
  exact ⟨hkeep "sid" d.sid (by decide), hkeep "src_url" d.srcUrl (by decide),
    hkeep "dest_url" d.destUrl (by decide), rfl, hkeep "host" d.host (by decide)⟩

/-- The stream of a start event that may be put. -/
def StreamOf (P : Event → Prop) (p : ProcessInfo) : Prop :=
  ∃ ev, P ev ∧ ev.type = .createProcess ∧ SameStream p ev.process

/-- What a thread at a control point forks a process for, or has forked one for. -/
def Ctl.forks : Ctl → List ProcessInfo
  | .spawnQuery p | .spawnFork p | .spawnInsert p | .reloadFork p | .reloadUpdate p | .detectFork p _
  | .detectUpdate p _ => [p]
  | _ => []

/-- What is queued, recorded, running or under way is of events that may be put. -/
structure Requested (P : Event → Prop) (v : Conf) : Prop where
  queue : ∀ i, ∀ ev ∈ v.queue i, P ev
  coll : ∀ d ∈ v.store.coll, StreamOf P d
  procs : ∀ a ∈ v.store.os.procs, ∀ p, a.owner = some p → StreamOf P p
  thread : ∀ τ c, v.thread τ = some c → ∀ p ∈ c.forks, StreamOf P p

section

variable {env : Env} {P : Event → Prop} {st st' : Store} {c c' : Ctl} {ch : Choice} {p q : ProcessInfo} {d : Doc}
  {v v' : Conf} {l : Label}

theorem StreamOf.withPid (h : StreamOf P p) (pid : Int) : StreamOf P { p with pid } := by
  obtain ⟨ev, hev, hty, hsame⟩ := h
  exact ⟨ev, hev, hty, hsame.sid, hsame.srcUrl, hsame.destUrl, hsame.type, hsame.host⟩

theorem StreamOf.congr (h : StreamOf P q) (hpq : SameStream p q) : StreamOf P p := by
  obtain ⟨ev, hev, hty, hsame⟩ := h
  exact ⟨ev, hev, hty, hpq.sid.trans hsame.sid, hpq.srcUrl.trans hsame.srcUrl, hpq.destUrl.trans hsame.destUrl,
    hpq.type.trans hsame.type, hpq.host.trans hsame.host⟩

theorem StreamOf.processDoc (env : Env) (h : StreamOf P p) : StreamOf P (ServerBiz.processDoc env p) := by
  obtain ⟨ev, hev, hty, hsame⟩ := h
  refine ⟨ev, hev, hty, ?_, ?_, ?_, hsame.type, ?_⟩
  · exact (cStr_cStr p.sid).trans hsame.sid
  · exact (cStr_cStr p.srcUrl).trans hsame.srcUrl
  · exact (cStr_cStr p.destUrl).trans hsame.destUrl
  · exact (cStr_cStr p.host).trans hsame.host

theorem streamOf_setPid {k : Str} {x : Int} {coll : List Doc} (h : ∀ d ∈ coll, StreamOf P d) :
    ∀ d ∈ setPid k x coll, StreamOf P d := by
  intro d hd
  rcases Keyed.mem_modifyFirst hd with hd | ⟨e, he, rfl⟩
  · exact h d hd
  · exact (h e (List.mem_of_find?_eq_some he)).withPid x

@[simp] theorem forks_detectNext (l : List ProcessInfo) : (Ctl.detectNext l).forks = [] := by
  cases l <;> rfl

theorem FStep.forks (h : FStep c c') : ∀ p ∈ c'.forks, p ∈ c.forks := by
  intro p hp
  cases h with
  | lookup | detectUpdate =>
    rw [forks_detectNext] at hp
    cases hp
  | _ => first | exact hp | cases hp

/-- **One call of a thread** makes nothing that is not of an event that may be put. -/
theorem CStep.requested (hseen : ∀ d : Doc, SameStream (d.seen env.shown) d) (h : CStep env st c ch c' st')
    (hcoll : ∀ d ∈ st.coll, StreamOf P d)
    (hprocs : ∀ a ∈ st.os.procs, ∀ p, a.owner = some p → StreamOf P p) (hc : ∀ p ∈ c.forks, StreamOf P p) :
    (∀ d ∈ st'.coll, StreamOf P d) ∧ (∀ a ∈ st'.os.procs, ∀ p, a.owner = some p → StreamOf P p) ∧
      ∀ p ∈ c'.forks, StreamOf P p := by
  have hfork (p : ProcessInfo) (x : Int) (hp : StreamOf P p) :
      ∀ a ∈ (st.os.add ⟨x, some p⟩).procs, ∀ q, a.owner = some q → StreamOf P q := by
    intro a ha q hq
    rcases List.mem_append.mp ha with ha | ha
    · exact hprocs a ha q hq
    · obtain rfl := List.mem_singleton.mp ha
      cases hq
      exact hp
  cases h with
  | spawnFound | spawnForkFailed | removeFound | removeAbsent | reloadAbsent | reloadForkFailed =>
    exact ⟨hcoll, hprocs, nofun⟩
  | spawnAbsent => exact ⟨hcoll, hprocs, hc⟩
  | @spawnForked p x | @reloadForked p x | @detectForked p rest x =>
    have hp := hc p List.mem_cons_self
    refine ⟨hcoll, hfork p x hp, fun q hq => ?_⟩
    obtain rfl := List.mem_singleton.mp hq
    exact hp.withPid x
  | @insert p =>
    refine ⟨fun d hd => ?_, hprocs, nofun⟩
    rcases List.mem_append.mp hd with hd | hd
    · exact hcoll d hd
    · obtain rfl := List.mem_singleton.mp hd
      exact (hc p List.mem_cons_self).processDoc env
  | delete => exact ⟨fun d hd => hcoll d (List.mem_of_mem_eraseP hd), hprocs, nofun⟩
  | kill => exact ⟨hcoll, fun a ha => hprocs a (List.mem_of_mem_filter ha), nofun⟩
  | reloadFound hd =>
    refine ⟨hcoll, hprocs, fun q hq => ?_⟩
    obtain rfl := List.mem_singleton.mp hq
    exact (hcoll _ (recs_head hd).1).congr (hseen _)
  | lookupFound hd =>
    refine ⟨hcoll, hprocs, fun q hq => ?_⟩
    obtain rfl := List.mem_singleton.mp hq
    exact (hcoll _ (List.mem_of_find?_eq_some hd)).congr (hseen _)
  | reloadUpdate => exact ⟨streamOf_setPid hcoll, hprocs, nofun⟩
  | detectUpdate => exact ⟨streamOf_setPid hcoll, hprocs, by simp⟩
  | snapshot | probeAlive | lookupAbsent | detectForkFailed => exact ⟨hcoll, hprocs, by simp⟩
  | probeDead => exact ⟨hcoll, hprocs, nofun⟩

theorem forks_start {ev : Event} (hev : P ev) : ∀ p ∈ (Ctl.start ev).forks, StreamOf P p := by
  intro p hp
  unfold Ctl.start at hp
  cases hty : ev.type with
  | createProcess =>
    rw [hty] at hp
    obtain rfl := List.mem_singleton.mp hp
    exact ⟨ev, hev, hty, rfl, rfl, rfl, rfl, rfl⟩
  | _ =>
    rw [hty] at hp
    cases hp

/-- **A step keeps `Requested`.** -/
theorem Requested.move (hseen : ∀ d : Doc, SameStream (d.seen env.shown) d) (h : Requested P v)
    (hm : Moves env v l v') (hfits : v.Fits env) (hput : ∀ ev, l = .put ev → P ev) : Requested P v' := by
  have hqueue : ∀ i, ∀ ev ∈ v'.queue i, P ev := by
    intro i ev hev
    rcases hm.mem_queue hev with hev | hl
    · exact h.queue i ev hev
    · exact hput ev hl
  cases hm with
  | put hn hlt => exact ⟨hqueue, h.coll, h.procs, h.thread⟩
  | @front i ev q hidle hq =>
    refine ⟨hqueue, h.coll, h.procs, fun τ c hc => ?_⟩
    rcases of_update_some hc with ⟨rfl, rfl⟩ | ⟨-, hc⟩
    · exact forks_start (h.queue i ev (hq ▸ List.mem_cons_self))
    · exact h.thread τ c hc
  | @call τ ch c c' st' ht hc =>
    have hstep : (∀ d ∈ st'.coll, StreamOf P d) ∧
        (∀ a ∈ st'.os.procs, ∀ p, a.owner = some p → StreamOf P p) ∧ ∀ p ∈ c'.forks, StreamOf P p := by
      by_cases hdb : ch = .dbFail
      · subst hdb
        obtain ⟨hfail, rfl⟩ := hc.fstep (hfits.parent ht)
        exact ⟨h.coll, h.procs, fun p hp => h.thread τ c ht p (hfail.forks p hp)⟩
      · exact (hc.cstep (hfits.parent ht) hdb).requested hseen h.coll h.procs (h.thread τ c ht)
    refine ⟨hqueue, hstep.1, hstep.2.1, fun σ c₁ hc₁ => ?_⟩
    rcases of_update_some hc₁ with ⟨rfl, rfl⟩ | ⟨-, hc₁⟩
    · exact hstep.2.2
    · exact h.thread σ c₁ hc₁
  | pop hev ht hq =>
    refine ⟨hqueue, h.coll, h.procs, fun τ c hc => ?_⟩
    exact h.thread τ c (of_update_none hc).2
  | abort ht => exact ⟨hqueue, h.coll, h.procs, h.thread⟩
  | detect ht =>
    refine ⟨hqueue, h.coll, h.procs, fun τ c hc => ?_⟩
    rcases of_update_some hc with ⟨-, rfl⟩ | ⟨-, hc⟩
    · exact nofun
    · exact h.thread τ c hc
  | detectEnd ht =>
    refine ⟨hqueue, h.coll, h.procs, fun τ c hc => ?_⟩
    exact h.thread τ c (of_update_none hc).2
  | die hp => exact ⟨hqueue, h.coll, fun a ha => h.procs a (List.mem_of_mem_filter ha), h.thread⟩
  | appear hp =>
    refine ⟨hqueue, h.coll, fun a ha => ?_, h.thread⟩
    rcases List.mem_append.mp ha with ha | ha
    · exact h.procs a ha
    · obtain rfl := List.mem_singleton.mp ha
      exact nofun

end

/-! ### Requests -/

/-- A request to `start` that asks for the stream and passes the checks of the handler. -/
structure Request.Starts (rest : Rest) (r : Request) (p : ProcessInfo) : Prop where
  route : r.route = .start
  asked : ∃ body root srcUrl destUrl sid, r.body = some body ∧ rest.parse (cStr body) = .ok (some root) ∧
    root.getString "src" = .ok srcUrl ∧ root.getString "dest" = .ok destUrl ∧ root.getString "sid" = .ok sid ∧
    root.getInt "type" = .ok p.type ∧ srcUrl ≠ [] ∧ destUrl ≠ [] ∧ sid ≠ [] ∧
    cStr p.srcUrl = cStr srcUrl ∧ cStr p.destUrl = cStr destUrl ∧ cStr p.sid = cStr sid
  type : p.type = TranslateType.rtmp2Rtmp.val ∨ p.type = TranslateType.rtsp2Rtmp.val
  host : cStr p.host = cStr rest.host

section

variable {rest : Rest} {r : Request} {p : ProcessInfo} {ev : Event}

theorem starts_of_sameStream {body : Str} {root : Root} (hroute : r.route = .start) (hbody : r.body = some body)
    (hparse : rest.parse (cStr body) = .ok (some root)) (h : startFields rest root = .ok (.accept ev))
    (hsame : SameStream p ev.process) : r.Starts rest p := by
  unfold startFields at h
  obtain ⟨srcUrl, hsrc, h⟩ := bind_ok h
  obtain ⟨destUrl, hdest, h⟩ := bind_ok h
  obtain ⟨sid, hsid, h⟩ := bind_ok h
  obtain ⟨type, htype, h⟩ := bind_ok h
  split_ifs at h with hs hd hi ht
  all_goals cases h
  refine ⟨hroute, ⟨body, root, srcUrl, destUrl, sid, hbody, hparse, hsrc, hdest, hsid, ?_, hs, hd, hi,
    hsame.srcUrl, hsame.destUrl, hsame.sid⟩, ?_, hsame.host⟩
  · rw [hsame.type]
    exact htype
  · rw [hsame.type]
    by_contra hne
    exact ht ⟨fun he => hne (.inl he.symm), fun he => hne (.inr he.symm)⟩

end

/-- What a request asks to put. -/
def Asked (rest : Rest) (rs : List Request) (ev : Event) : Prop := ∃ r ∈ rs, r.event rest = some ev

theorem starts_of_streamOf {rest : Rest} {rs : List Request} {p : ProcessInfo} (h : StreamOf (Asked rest rs) p) :
    ∃ r ∈ rs, r.Starts rest p := by
  obtain ⟨ev, ⟨r, hr, hev⟩, hty, hsame⟩ := h
  obtain ⟨hroute, hacc⟩ := route_of_create hev hty
  obtain ⟨body, root, hbody, hparse, hfields⟩ := accepted_parsed hacc
  exact ⟨r, hr, starts_of_sameStream hroute hbody hparse hfields hsame⟩

theorem requested_of_runs {env : Env} (hseen : ∀ d : Doc, SameStream (d.seen env.shown) d) {P : Event → Prop}
    {ok : Sys Ctl → Label → Prop} {W : Int} {os : Os} {ls : List Label} {s : Sys Ctl}
    (hos : ∀ a ∈ os.procs, a.owner = none)
    (hok : ∀ t l, ok t l → ∀ ev, l = .put ev → P ev) (h : Runs (step (points env)) ok (Sys.boot W [] os) ls s) :
    Requested P s.conf := by
  refine (h.inv (fun t => t.conf.Fits env ∧ Requested P t.conf) ⟨fits_boot env W [] os, ?_⟩ ?_).2
  · refine ⟨by simp [Sys.conf, queue_boot], nofun, fun a ha p hp => ?_, by simp⟩
    rw [hos a ha] at hp
    cases hp
  · intro t l u ht hl hstep
    have hm := moves_of_step hstep
    exact ⟨ht.1.move hm, ht.2.move hseen hm ht.1 (hok t l hl)⟩

/-- **Every stream was requested**: on a host that starts with an empty collection, whatever fails and however the
parties interleave, each process that the service has forked, each record, and each process about to be forked is
of a stream that one of the requests to `start` asked for, if the strings of these requests come back. -/
theorem streams_were_requested {rest : Rest} {W : Int} {os : Os} {rs : List Request} {ls : List WebLabel}
    {w : Web (Act Int)} (hos : ∀ a ∈ os.procs, a.owner = none)
    (hintact : ∀ r ∈ rs, ∀ ev, r.event rest = some ev → (Label.put ev).intact rest.env streamNames = true)
    (h : Runs (webStep rest (service rest.env)) (fun _ _ => True) (Web.boot W [] os rs) ls w) :
    (∀ a ∈ w.sys.os.procs, ∀ p, a.owner = some p → ∃ r ∈ rs, r.Starts rest p) ∧
      (∀ d ∈ w.sys.coll, ∃ r ∈ rs, r.Starts rest d) ∧
        ∀ τ p, w.sys.next (service rest.env) τ = some (.fork p) → ∃ r ∈ rs, r.Starts rest p := by
  obtain ⟨ls', hrun⟩ : ∃ ls', Runs (step (service rest.env)) (fun _ l => ∀ ev, l = .put ev → Asked rest rs ev)
      (Sys.boot W [] os) ls' w.sys := by
    refine host_of_runs (P := Asked rest rs) (fun _ l _ hne ev hput => absurd hput (hne ev))
      (fun _ ev hev ev' hput => ?_)
      (fun r hr => calls_handler_event fun ev hev => ⟨r, hr, hev⟩) h
    cases hput
    exact hev
  have hlabels (t : Sys (Act Int)) (l : Label) (hl : ∀ ev, l = .put ev → Asked rest rs ev) :
      l.intact rest.env streamNames = true := by
    cases l with
    | put ev =>
      obtain ⟨r, hr, hev⟩ := hl ev rfl
      exact hintact r hr ev hev
    | _ => rfl
  replace hrun := runs_keep (List.forall_mem_nil _) hlabels hrun
  have hseen := sameStream_seen rest.env
  have hnext : ∀ τ, w.sys.next (service (rest.env.keep streamNames)) τ = w.sys.next (service rest.env) τ := fun _ => rfl
  simp only [← hnext]
  clear hnext
  generalize rest.env.keep streamNames = env at hrun hseen ⊢
  rw [← Sys.map_boot (Ctl.code env)] at hrun
  obtain ⟨u, hu, hrun⟩ := runs_points hrun
  have hinv := requested_of_runs hseen hos (fun _ _ => id) hrun
  rw [← hu]
  refine ⟨fun a ha p hp => starts_of_streamOf (hinv.procs a ha p hp), fun d hd => starts_of_streamOf (hinv.coll d hd),
    fun τ p hp => ?_⟩
  rw [Sys.next_map (points_hom env).view] at hp
  obtain ⟨c, hc, hcall⟩ := Option.bind_eq_some_iff.mp hp
  refine starts_of_streamOf (hinv.thread τ c hc p ?_)
  cases c <;> cases hcall
  all_goals exact List.mem_cons_self

/-- A stream that a request has asked for runs. -/
def requestedEnd : Web (Act Int) :=
  (check (webStep startRest (service sampleEnv)) (fun _ _ => True) startOnce
    (Web.boot 1 [] ⟨[], []⟩ [startRequest])).get (by decide)

theorem streams_were_requested_one :
    (∀ a ∈ requestedEnd.sys.os.procs, ∀ p, a.owner = some p → ∃ r ∈ [startRequest], r.Starts startRest p) ∧
      (∀ d ∈ requestedEnd.sys.coll, ∃ r ∈ [startRequest], r.Starts startRest d) ∧
        ∀ τ p, requestedEnd.sys.next (service sampleEnv) τ = some (.fork p) →
          ∃ r ∈ [startRequest], r.Starts startRest p :=
  @streams_were_requested startRest 1 ⟨[], []⟩ [startRequest] startOnce requestedEnd
    (by decide) (by decide) (runs_get _)

end PullStream
