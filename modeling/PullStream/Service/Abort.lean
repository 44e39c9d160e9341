import PullStream.Control.Web
import PullStream.Control.Progress
import PullStream.Service.Delivery
/-!
# Requests and the assertion of `worker_loop`

The `switch` of `worker_loop` has no case for `EV_TERMINATE_PROCESS`, which `stop_i` puts, so a worker that
takes such an event fails the assertion of `default`. The other handlers put events of the other types.

A request `Terminates` when it makes `stop_i` put its event. The assertion is out of reach exactly when no
request of the sequence does (`service_aborts_iff`): if none does no queue ever holds a termination
(`running_of_runs`), and otherwise the events before the first one can be processed one after another
until a worker takes it (`abort_of_requests`).
-/

namespace PullStream

open Function Transition RestApi Lane

/-! ### What the handlers put -/

/-- A request to `stop_i` whose body is there, parses, and has an integer `pid`. -/
def Request.terminates (rest : Rest) (r : Request) : Bool :=
  match r.route, r.body with
  | .stopI, some body =>
    match rest.parse (cStr body) with
    | .ok (some root) => (root.getInt "pid").isOk
    | _ => false
  | _, _ => false

section

variable {rest : Rest} {root : Root} {ev : Event} {fields : Root → Except Str Parsed} {body : Option Str}
  {P : Event → Prop}

theorem accepted_stopI (rest : Rest) (body : Option Str) :
    (Request.mk .stopI body).terminates rest = (accepted rest (stopIFields rest) body).isSome := by
  cases body with
  | none => rfl
  | some body =>
    simp only [Request.terminates, accepted, tryParse]
    rcases rest.parse (cStr body) with what | text
    · rfl
    · cases text with
      | none => rfl
      | some root =>
        simp only [bind, Except.bind, stopIFields]
        cases root.getInt "pid" <;> rfl

theorem handler_eq (rest : Rest) (r : Request) (hr : r.route ≠ .checkAliveI) :
    ∃ bodyNull fields done, r.handler rest = handle rest bodyNull fields done r.body ∧
      (r.terminates rest = true → (accepted rest fields r.body).isSome) ∧
      ∀ ev, accepted rest fields r.body = some ev →
        (ev.type = .terminateProcess ↔ r.terminates rest = true) := by
  obtain ⟨route, body⟩ := r
  cases route with
  | start =>
    refine ⟨_, startFields rest, _, rfl, nofun, fun ev hev => ?_⟩
    obtain ⟨root, hroot⟩ := accepted_some hev
    rw [type_of_startFields hroot]
    exact iff_of_false nofun nofun
  | stop =>
    refine ⟨_, stopFields rest, _, rfl, nofun, fun ev hev => ?_⟩
    obtain ⟨root, hroot⟩ := accepted_some hev
    rw [type_of_stopFields hroot]
    exact iff_of_false nofun nofun
  | startI =>
    refine ⟨_, startIFields rest, _, rfl, nofun, fun ev hev => ?_⟩
    obtain ⟨root, hroot⟩ := accepted_some hev
    rw [type_of_startIFields hroot]
    exact iff_of_false nofun nofun
  | stopI =>
    refine ⟨_, stopIFields rest, _, rfl, fun h => (accepted_stopI rest body).symm.trans h, fun ev hev => ?_⟩
    obtain ⟨root, hroot⟩ := accepted_some hev
    have hterm : (Request.mk .stopI body).terminates rest = true := by
      rw [accepted_stopI]
      exact hev ▸ rfl
    unfold stopIFields at hroot
    obtain ⟨pid, -, hroot⟩ := bind_ok hroot
    cases hroot
    exact iff_of_true rfl hterm
  | checkAliveI => exact absurd rfl hr

theorem calls_handler {r : Request} (hr : r.terminates rest = false) :
    (r.handler rest).Calls (HttpCall.Puts fun ev => ev.type ≠ .terminateProcess) := by
  by_cases hroute : r.route = .checkAliveI
  · unfold Request.handler
    rw [hroute]
    exact calls_reply _ none _
  · obtain ⟨bodyNull, fields, done, heq, -, hev⟩ := handler_eq rest r hroute
    rw [heq]
    refine calls_handle fun ev h hty => ?_
    rw [(hev ev h).mp hty] at hr
    cases hr

end

/-! ### Without terminations the assertion is out of reach -/

/-- No termination was accepted, and the service runs. -/
structure Running (env : Env) (W : Nat) (v : Conf) : Prop where
  fits : v.Fits env
  delivery : Delivery W v
  accepted : ∀ ev ∈ v.accepted, ev.type ≠ .terminateProcess
  running : v.aborted = false

namespace Running

variable {W : Nat} {env : Env} {v v' : Conf} {l : Label}

theorem not_asserting (h : Running env W v) (i : Nat) : v.thread (.worker i) ≠ some .asserting := by
  intro ht
  obtain ⟨ev, hev, hty⟩ := h.fits.worker i _ ht
  obtain ⟨q, hq⟩ := h.fits.front i ev hev
  have hmem : ev ∈ v.queue i := hq ▸ List.mem_cons_self
  have hi : i < W := by
    apply Nat.lt_of_not_le
    intro hle
    rw [h.delivery.busy i hle] at hmem
    cases hmem
  apply h.accepted ev _ hty
  apply Lane.mem_of_mem_lane hi
  rw [← h.delivery.lanes i hi]
  exact List.mem_append_right _ hmem

theorem move (h : Running env W v) (hm : Moves env v l v')
    (hput : ∀ ev, l = .put ev → ev.type ≠ .terminateProcess) : Running env W v' := by
  refine ⟨h.fits.move hm, h.delivery.move h.fits hm, ?_, ?_⟩
  · cases hm with
    | put =>
      intro ev hev
      rcases List.mem_append.mp hev with hev | hev
      · exact h.accepted ev hev
      · exact List.mem_singleton.mp hev ▸ hput _ rfl
    | _ => exact h.accepted
  · cases hm with
    | abort ht => exact absurd ht (h.not_asserting _)
    | _ => exact h.running

end Running

theorem running_of_runs {env : Env} {W : Nat} {coll : List Doc} {os : Os} {ls : List Label} {u : Sys Ctl}
    (h : Runs (step (points env)) (fun _ l => ∀ ev, l = .put ev → ev.type ≠ .terminateProcess)
      (Sys.boot W coll os) ls u) : Running env W u.conf := by
  refine h.inv (fun t => Running env W t.conf) ⟨fits_boot .., delivery_boot .., ?_, rfl⟩ ?_
  · intro ev hev
    cases hev
  intro t l u hinv hput hstep
  exact hinv.move (moves_of_step hstep) hput

/-! ### With one it can be reached -/

section

variable {env : Env} {rest : Rest} {rs : List Request} {s s' : Sys (Act Int)} {r : Request}

theorem runs_host {ls : List Label} {prog : Option (Http Unit)}
    (h : Runs (step (service env)) (fun _ => Label.quiet) s ls s') :
    Runs (webStep rest (service env)) (fun _ _ => True) ⟨s, rs, prog⟩ (ls.map .host) ⟨s', rs, prog⟩ := by
  induction h with
  | nil => exact .nil
  | @snoc ls t u l _ hl hstep ih =>
    rw [List.map_append]
    refine ih.snoc trivial ?_
    cases l with
    | put ev => exact absurd rfl (hl ev)
    | _ => exact congrArg (Option.map fun sys => (⟨sys, rs, prog⟩ : Web _)) hstep

/-- The calls of a reply, to the end of the handler. -/
def replyLabels : List WebLabel := [.http none, .http none, .http none, .finish]

theorem runs_reply (hs : s.aborted = false) (e : Exit) :
    Runs (webStep rest (service env)) (fun _ _ => True) ⟨s, rs, some (reply (some 0) e)⟩ replyLabels
      ⟨s, rs, none⟩ := by
  apply runs_of_check
  simp [replyLabels, check, webStep, hs, loopStep, reply, answerHttp, Prog.perform]

theorem runs_buffer (env : Env) (rest : Rest) (rs : List Request) (hs : s.aborted = false)
    (k : Buffer → Http Unit) :
    Runs (webStep rest (service env)) (fun _ _ => True) ⟨s, rs, some (.call .evbufferNew k)⟩
      [.http (some 0)] ⟨s, rs, some (k (some 0))⟩ := by
  apply runs_of_check
  simp [check, webStep, hs, loopStep, answerHttp]

theorem runs_put (hs : s.aborted = false) {ev : Event} (hput : step (service env) (.put ev) s = some s')
    (k : Int → Http Unit) :
    Runs (webStep rest (service env)) (fun _ _ => True) ⟨s, rs, some (.call (.putData ev) k)⟩ [.http none]
      ⟨s', rs, some (k ErrorCode.errorOk)⟩ := by
  apply runs_of_check
  simp [check, webStep, hs, loopStep, answerHttp, hput]

theorem aborted_put {ev : Event} (hput : step (service env) (.put ev) s = some s') :
    s'.aborted = s.aborted := by
  obtain ⟨n, w, -, -, rfl⟩ := step_put hput
  rfl

theorem runs_handle (env : Env) (rest : Rest) (rs : List Request) (hs : s.aborted = false)
    (bodyNull : Exit) (fields : Root → Except Str Parsed) (done : Int → Exit) (body : Option Str)
    (h : match accepted rest fields body with
      | none => s' = s
      | some ev => step (service env) (.put ev) s = some s') :
    ∃ ls, Runs (webStep rest (service env)) (fun _ _ => True)
      ⟨s, rs, some (handle rest bodyNull fields done body)⟩ ls ⟨s', rs, none⟩ := by
  have hnew := runs_buffer env rest rs hs
  cases body with
  | none =>
    obtain rfl := h
    exact ⟨_, (hnew _).trans (runs_reply hs bodyNull)⟩
  | some body =>
    simp only [accepted] at h
    rcases htry : tryParse rest fields body with what | (e | ev)
    all_goals
      rw [htry] at h
      simp only [handle, htry]
    · obtain rfl := h
      exact ⟨_, (hnew _).trans (runs_reply hs (exception what))⟩
    · obtain rfl := h
      exact ⟨_, (hnew _).trans (runs_reply hs e)⟩
    · exact ⟨_, (hnew _).trans ((runs_put hs h _).trans (runs_reply ((aborted_put h).trans hs) _))⟩

theorem runs_request (hs : s.aborted = false) {prog : Http Unit} (hprog : r.handler rest = prog)
    (h : ∃ ls, Runs (webStep rest (service env)) (fun _ _ => True) ⟨s, rs, some prog⟩ ls ⟨s', rs, none⟩) :
    ∃ ls, Runs (webStep rest (service env)) (fun _ _ => True) ⟨s, r :: rs, none⟩ ls ⟨s', rs, none⟩ := by
  obtain ⟨ls, hls⟩ := h
  subst hprog
  have haccept : webStep rest (service env) .accept ⟨s, r :: rs, none⟩ =
      some ⟨s, rs, some (r.handler rest)⟩ := by
    simp [webStep, hs, loopStep]
  have hsingle : Runs (webStep rest (service env)) (fun _ _ => True) _ [.accept] _ :=
    .single trivial haccept
  exact ⟨_, hsingle.trans hls⟩

theorem abort_of_requests (env : Env) {W : Nat} (hroutes : ∀ r ∈ rs, r.route ≠ .checkAliveI)
    (hterm : ∃ r ∈ rs, r.terminates rest = true) (t : Sys Ctl) (hidle : t.Idle W) :
    ∃ ls w, Runs (webStep rest (service env)) (fun _ _ => True) ⟨t.map (Ctl.code env), rs, none⟩ ls w ∧
      w.sys.aborted = true ∧ ∃ ev ∈ w.sys.accepted, ev.type = .terminateProcess := by
  have himage {t t' : Sys Ctl} {ls : List Label} :
      Runs (step (points env)) (fun _ => Label.quiet) t ls t' →
      Runs (step (service env)) (fun _ => Label.quiet) (t.map (Ctl.code env)) ls (t'.map (Ctl.code env)) :=
    Runs.image _ (step_map (points_hom env)) fun _ _ => id
  have hput {t t' : Sys Ctl} {ev : Event} (h : step (points env) (.put ev) t = some t') :
      step (service env) (.put ev) (t.map (Ctl.code env)) = some (t'.map (Ctl.code env)) := by
    rw [step_map (points_hom env), h]
    rfl
  induction rs generalizing t with
  | nil =>
    obtain ⟨r, hr, -⟩ := hterm
    cases hr
  | cons r rs ih =>
    have hrest := fun r' hr' => hroutes r' (List.mem_cons_of_mem r hr')
    obtain ⟨bodyNull, fields, done, hprog, hsome, hev⟩ := handler_eq rest r (hroutes r List.mem_cons_self)
    have hrunning : (t.map (Ctl.code env)).aborted = false := hidle.running
    have hhandle {s' : Sys (Act Int)} := @runs_handle _ s' env rest rs hrunning bodyNull fields done r.body
    cases hacc : accepted rest fields r.body with
    | none =>
      have hfirst := runs_request hidle.running hprog (hhandle (by rw [hacc]))
      have hnot : r.terminates rest ≠ true := by
        intro h
        have hs := hsome h
        rw [hacc] at hs
        cases hs
      have hlater : ∃ r ∈ rs, r.terminates rest = true := by
        obtain ⟨r', hr', ht⟩ := hterm
        rcases List.mem_cons.mp hr' with rfl | hr'
        · exact absurd ht hnot
        · exact ⟨r', hr', ht⟩
      obtain ⟨ls, hls⟩ := hfirst
      obtain ⟨ls', w, hrun, hw⟩ := ih hrest hlater t hidle
      exact ⟨_, w, hls.trans hrun, hw⟩
    | some ev =>
      by_cases hty : ev.type = .terminateProcess
      · obtain ⟨t₁, ls₁, t₂, hput₁, hrun, hab, hmem⟩ := abort_of_event env hidle hty
        obtain ⟨ls, hls⟩ := runs_request hidle.running hprog (hhandle (by rw [hacc]; exact hput hput₁))
        exact ⟨_, _, hls.trans (runs_host (himage hrun)), hab, ev, hmem, hty⟩
      · obtain ⟨t₁, ls₁, t₂, hput₁, hrun, hidle₂⟩ := idle_of_event env hidle hty
        obtain ⟨ls, hls⟩ := runs_request hidle.running hprog (hhandle (by rw [hacc]; exact hput hput₁))
        have hlater : ∃ r ∈ rs, r.terminates rest = true := by
          obtain ⟨r', hr', ht⟩ := hterm
          rcases List.mem_cons.mp hr' with rfl | hr'
          · exact absurd ((hev ev hacc).mpr ht) hty
          · exact ⟨r', hr', ht⟩
        obtain ⟨ls', w, hrest', hw⟩ := ih hrest hlater t₂ hidle₂
        exact ⟨_, w, (hls.trans (runs_host (himage hrun))).trans hrest', hw⟩

end

/-- **No request aborts the service, and every termination put ends in `terminate_process`, exactly when
no request of the sequence makes `stop_i` put its event.** -/
theorem service_aborts_iff {rest : Rest} {W : Nat} {coll : List Doc} {os : Os} {rs : List Request}
    (hW : 1 ≤ W) (hroutes : ∀ r ∈ rs, r.route ≠ .checkAliveI) :
    ((∀ ls w, Runs (webStep rest (service rest.env)) (fun _ _ => True) (Web.boot W coll os rs) ls w →
        w.sys.aborted = false ∧ ∀ i, w.sys.next (service rest.env) (.worker i) ≠ some .assertFail) ↔
      ∀ r ∈ rs, r.terminates rest = false) ∧
    ((∀ ls w, Runs (webStep rest (service rest.env)) (fun _ _ => True) (Web.boot W coll os rs) ls w →
        ∀ ev ∈ w.sys.accepted, ev.type = .terminateProcess →
          ServerBiz.dispatch rest.env ev = ProcessCtl.terminateProcess ev.process) ↔
      ∀ r ∈ rs, r.terminates rest = false) := by
  have hsafe (hnone : ∀ r ∈ rs, r.terminates rest = false) {ls : List WebLabel} {w : Web (Act Int)}
      (h : Runs (webStep rest (service rest.env)) (fun _ _ => True) (Web.boot W coll os rs) ls w) :
      ∃ u : Sys Ctl, u.map (Ctl.code rest.env) = w.sys ∧ Running rest.env W u.conf := by
    obtain ⟨ls', hrun⟩ : ∃ ls', Runs (step (service rest.env))
        (fun _ l => ∀ ev, l = .put ev → ev.type ≠ .terminateProcess) (Sys.boot W coll os) ls' w.sys := by
      refine host_of_runs (fun _ l _ hne ev hput => absurd hput (hne ev)) (fun _ ev hev ev' hput => ?_)
        (fun r hr => calls_handler (hnone r hr)) h
      cases hput
      exact hev
    rw [← Sys.map_boot (Ctl.code rest.env)] at hrun
    obtain ⟨u, hu, hrun⟩ := runs_points hrun
    exact ⟨u, hu, running_of_runs hrun⟩
  have habort (hsome : ∃ r ∈ rs, r.terminates rest = true) :
      ∃ ls w, Runs (webStep rest (service rest.env)) (fun _ _ => True) (Web.boot W coll os rs) ls w ∧
        w.sys.aborted = true ∧ ∃ ev ∈ w.sys.accepted, ev.type = .terminateProcess := by
    have habort := abort_of_requests rest.env hroutes hsome _ (idle_boot hW coll os)
    rwa [Sys.map_boot] at habort
  have hcases : (¬ ∃ r ∈ rs, r.terminates rest = true) → ∀ r ∈ rs, r.terminates rest = false := by
    intro h r hr
    exact Bool.eq_false_iff.mpr fun ht => h ⟨r, hr, ht⟩
  refine ⟨⟨fun h => hcases fun hsome => ?_, fun hnone ls w h => ?_⟩,
    ⟨fun h => hcases fun hsome => ?_, fun hnone ls w h => ?_⟩⟩
  · obtain ⟨ls, w, hrun, hab, -⟩ := habort hsome
    rw [(h ls w hrun).1] at hab
    cases hab
  · obtain ⟨u, hu, hrunning⟩ := hsafe hnone h
    rw [← hu]
    refine ⟨hrunning.running, fun i hnext => ?_⟩
    rw [Sys.next_map (points_hom rest.env).view] at hnext
    obtain ⟨c, hc, hcall⟩ := Option.bind_eq_some_iff.mp hnext
    rw [call?_assertFail hcall] at hc
    exact hrunning.not_asserting i hc
  · obtain ⟨ls, w, hrun, -, ev, hev, hty⟩ := habort hsome
    have hdispatch := h ls w hrun ev hev hty
    unfold ServerBiz.dispatch at hdispatch
    rw [hty] at hdispatch
    cases hdispatch
  · obtain ⟨u, hu, hrunning⟩ := hsafe hnone h
    rw [← hu]
    intro ev hev hty
    exact absurd hty (hrunning.accepted ev hev)

/-! ### A termination -/

/-- A reader that finds the one member `pid`. -/
def sampleRest : Rest where
  env := sampleEnv
  parse _ := .ok (some fun name => .ok (if name = "pid" then .ofInt 10 else .null))
  host := lit "127.0.0.1"

def stopIRequest : Request := ⟨.stopI, some (lit "\x7b\"pid\":10\x7d")⟩

def terminateLabels : List WebLabel :=
  [.accept, .http (some 0), .http none] ++ replyLabels ++ [.host (.front 0), .host (.abort 0)]

def terminateEnd : Web (Act Int) :=
  (check (webStep sampleRest (service sampleEnv)) (fun _ _ => True) terminateLabels
    (Web.boot (1 : Nat) [] ⟨[], []⟩ [stopIRequest])).get (by decide)

theorem stop_i_aborts :
    ¬ ∀ (rest : Rest) (W : Nat) (coll : List Doc) (os : Os) (rs : List Request) (ls : List WebLabel)
      (w : Web (Act Int)), 1 ≤ W → (∀ r ∈ rs, r.route ≠ .checkAliveI) →
      Runs (webStep rest (service rest.env)) (fun _ _ => True) (Web.boot W coll os rs) ls w →
      w.sys.aborted = false ∧
        (∀ i, w.sys.next (service rest.env) (.worker i) ≠ some .assertFail) ∧
        ∀ ev ∈ w.sys.accepted, ev.type = .terminateProcess →
          ServerBiz.dispatch rest.env ev = ProcessCtl.terminateProcess ev.process := by
  intro h
  have hclaim := h sampleRest 1 [] ⟨[], []⟩ [stopIRequest] terminateLabels terminateEnd (by decide)
    (by decide) (runs_get _)
  exact absurd hclaim.1 (by decide)

theorem service_aborts_iff_stop :
    ((∀ ls w, Runs (webStep sampleRest (service sampleEnv)) (fun _ _ => True)
        (Web.boot (1 : Nat) [] ⟨[], []⟩ [⟨.stop, some []⟩]) ls w →
        w.sys.aborted = false ∧ ∀ i, w.sys.next (service sampleEnv) (.worker i) ≠ some .assertFail) ↔
      ∀ r ∈ [Request.mk .stop (some [])], r.terminates sampleRest = false) ∧
    ((∀ ls w, Runs (webStep sampleRest (service sampleEnv)) (fun _ _ => True)
        (Web.boot (1 : Nat) [] ⟨[], []⟩ [⟨.stop, some []⟩]) ls w →
        ∀ ev ∈ w.sys.accepted, ev.type = .terminateProcess →
          ServerBiz.dispatch sampleEnv ev = ProcessCtl.terminateProcess ev.process) ↔
      ∀ r ∈ [Request.mk .stop (some [])], r.terminates sampleRest = false) :=
  service_aborts_iff (by decide) (by decide)

end PullStream
