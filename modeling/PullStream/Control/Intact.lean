import PullStream.Control.Alone
import PullStream.Control.Guard
import PullStream.Control.Hosts
import PullStream.Control.Solo
/-!
# Strings that the store gives back as they are

A string that libbson prints with an escape of its own comes back as another one. `d.intact env names` says that in
the members of the given names this does not happen to a record, and `l.intact env names` that it will not happen to
the record of a start that is put. As long as both hold, a run is one of a service to which all strings in these
members come back as they are (`runs_keep`, for clusters `runs_cluster_keep`): the records of the collection are those
that were there at first and those that starts have inserted (`Sys.Recording`).
-/

namespace PullStream

open Transition ServerBiz ProcessCtl Prog

/-- The strings of a record, with the names of their members. -/
def ProcessInfo.strings (p : ProcessInfo) : List (String × Str) :=
  [("sid", p.sid), ("src_url", p.srcUrl), ("dest_url", p.destUrl), ("status", p.status), ("host", p.host)]

/-- In the members of these names the record comes back as it is stored. -/
def Doc.intact (env : Env) (names : List String) (d : Doc) : Bool :=
  d.strings.all fun x => x.1 ∉ names || env.shown x.1 x.2 = x.2

/-- The record of a start that is put comes back so. -/
def Label.intact (env : Env) (names : List String) : Label → Bool
  | .put ev => ev.type ≠ .createProcess || (processDoc env ev.process).intact env names
  | _ => true

/-- A query by what comes back of the sid asks for the sid. -/
def Env.KeepsSid (env : Env) (sid : Str) : Prop := cStr (env.shown "sid" sid) = sid

instance (env : Env) (sid : Str) : Decidable (env.KeepsSid sid) := inferInstanceAs (Decidable (_ = _))

/-- Surroundings in which all strings in these members come back as they are. -/
def Env.keep (env : Env) (names : List String) : Env :=
  { env with shown := fun name s => if name ∈ names then s else env.shown name s }

section

variable {env : Env} {names : List String} {d : Doc} {st : Store}

theorem keep_shown {name : String} (h : name ∈ names) (s : Str) : (env.keep names).shown name s = s := if_pos h

theorem shown_of_intact (h : d.intact env names = true) {name : String} {s : Str} (hs : (name, s) ∈ d.strings) :
    (env.keep names).shown name s = env.shown name s := by
  show (if name ∈ names then s else env.shown name s) = _
  split_ifs with hname
  · have hkept := List.all_eq_true.mp h (name, s) hs
    simp only [Bool.or_eq_true, decide_eq_true_eq] at hkept
    exact (hkept.resolve_left (not_not_intro hname)).symm
  · rfl

theorem text_of_intact (h : d.intact env names = true) : d.text (env.keep names).shown = d.text env.shown := by
  have hmem (x : String × Str) (hx : x ∈ d.strings) : (env.keep names).shown x.1 x.2 = env.shown x.1 x.2 :=
    shown_of_intact h hx
  simp only [ProcessInfo.strings, List.mem_cons, List.not_mem_nil, or_false, forall_eq_or_imp, forall_eq] at hmem
  obtain ⟨hsid, hsrc, hdest, hstatus, hhost⟩ := hmem
  unfold Doc.text
  rw [hsid, hsrc, hdest, hstatus, hhost]

theorem sid_of_intact (h : d.intact env ["sid"] = true) : env.shown "sid" d.sid = d.sid := by
  rw [← shown_of_intact h (show ("sid", d.sid) ∈ d.strings from List.mem_cons_self)]
  exact keep_shown (List.mem_singleton_self _) _

theorem answer_keep {c : Call} {ch : Choice} (h : ∀ d ∈ st.coll, d.intact env names = true) :
    answer (env.keep names).shown c ch st = answer env.shown c ch st := by
  cases c with
  | findOne q =>
    cases ch with
    | ok =>
      refine congrArg (fun x => some (x, st)) (Option.map_congr fun d hd => ?_)
      exact text_of_intact (h d (List.mem_of_find?_eq_some hd))
    | _ => rfl
  | find q =>
    cases ch with
    | ok =>
      refine congrArg (fun x => some (x, st)) (List.map_congr_left fun d hd => ?_)
      exact text_of_intact (h d (List.mem_of_mem_filter hd))
    | _ => rfl
  | _ => cases ch <;> rfl

theorem detectLoop_keep (env : Env) (names : List String) (l : List ProcessInfo) :
    detectLoop (env.keep names) l = detectLoop env l := by
  induction l with
  | nil => rfl
  | cons r l ih =>
    rw [detectLoop, detectLoop, ih]
    rfl

theorem service_keep (env : Env) (names : List String) :
    service (env.keep names) = { service env with shown := (env.keep names).shown } := by
  refine Threads.mk.injEq .. ▸ ⟨rfl, funext fun ev => ?_, ?_, rfl⟩
  · show dispatch (env.keep names) ev = dispatch env ev
    obtain ⟨p, type⟩ := ev
    cases type <;> rfl
  · show processAliveDetect (env.keep names) = processAliveDetect env
    unfold processAliveDetect
    simp only [detectLoop_keep]
    rfl

/-- **A step on such records** is one of the service to which these strings come back. -/
theorem step_keep {s : Sys (Act Int)} (h : ∀ d ∈ s.coll, d.intact env names = true) (l : Label) :
    step (service (env.keep names)) l s = step (service env) l s := by
  rw [service_keep]
  cases l with
  | call τ ch =>
    simp only [step, stepRunning]
    refine congrArg (ite _ _) ?_
    cases s.thread τ with
    | none => rfl
    | some t =>
      cases t with
      | ret rtn => rfl
      | call c k =>
        have hstore : ∀ d ∈ s.store.coll, d.intact env names = true := h
        simp only [service, Prog.view]
        exact congrArg _ (answer_keep hstore)
  | _ => rfl

end

/-! ### Sids that come back -/

/-- Every sid comes back from the store as it is. -/
def Env.KeepsSids (env : Env) : Prop := ∀ sid, env.shown "sid" sid = sid

theorem keep_sids (env : Env) : (env.keep ["sid"]).KeepsSids := fun s => keep_shown (List.mem_singleton_self _) s

theorem Env.KeepsSids.key {env : Env} (h : env.KeepsSids) {sid : Str} {ev : Event}
    (hsid : sid = env.shown "sid" ev.key) : cStr sid = ev.key := by
  rw [hsid, h]
  exact cStr_cStr ev.process.sid

/-! ### What holds of every record -/

/-- Every record that the call inserts satisfies `K`. -/
def Call.Records (K : Doc → Prop) : Call → Prop
  | .insert d => K d
  | _ => True

/-- The records of a start satisfy `K`. -/
def Event.Records (env : Env) (K : Doc → Prop) (ev : Event) : Prop :=
  ev.type = .createProcess → ∀ pid, K (processDoc env { ev.process with pid })

/-- All records satisfy `K`, and so do those that will be inserted. -/
structure Sys.Recording (env : Env) (K : Doc → Prop) (s : Sys (Act Int)) : Prop where
  coll : ∀ d ∈ s.coll, K d
  guarded : s.Guarded (Event.Records env K) fun _ t => t.Calls (Call.Records K)

section

variable {env : Env} {K : Doc → Prop} {ev : Event} {s u : Sys (Act Int)} {l : Label}

theorem records_of_scheduler {c : Call} (h : c.ofScheduler = true) : c.Records K := by
  cases c with
  | insert d => cases h
  | _ => trivial

theorem calls_dispatch_records (h : Event.Records env K ev) : (dispatch env ev).Calls (Call.Records K) := by
  unfold dispatch
  cases hty : ev.type with
  | createProcess =>
    refine calls_bind ⟨trivial, fun found => ?_⟩ fun (found, _) => ?_
    · cases found <;> trivial
    · dsimp only
      split_ifs
      · trivial
      · refine ⟨trivial, fun (pid : Int) => ?_⟩
        show (if pid < 0 then _ else if 0 < pid then _ else _ : Act Int).Calls _
        split_ifs
        · trivial
        · refine ⟨h hty pid, fun (done : Bool) => ?_⟩
          cases done <;> trivial
        · exact ⟨trivial, fun _ => trivial⟩
  | removeProcess =>
    refine ⟨trivial, fun found => ?_⟩
    cases found with
    | none => trivial
    | some item =>
      refine ⟨trivial, fun (done : Bool) => ?_⟩
      cases done <;> exact ⟨trivial, fun _ => trivial⟩
  | reloadProcess =>
    refine calls_bind ⟨trivial, fun found => ?_⟩ fun (found, info) => ?_
    · cases found <;> trivial
    · dsimp only
      split_ifs
      · exact calls_bind ((calls_spawnProcessI env info).mono fun _ => records_of_scheduler) fun _ => trivial
      · trivial
  | terminateProcess => exact ⟨trivial, nofun⟩

theorem records_of_answer {shown : String → Str → Str} {c : Call} {ch : Choice} {st : Store} {x : Reply c × Store}
    (hpid : ∀ d pid, K d → K { d with pid := pid }) (hst : ∀ d ∈ st.coll, K d) (hc : c.Records K)
    (h : answer shown c ch st = some x) : ∀ d ∈ x.2.coll, K d := by
  cases c with
  | insert d =>
    cases ch <;> cases h
    · intro e he
      rcases List.mem_append.mp he with he | he
      · exact hst e he
      · exact List.mem_singleton.mp he ▸ hc
    · exact hst
  | update q p =>
    cases ch <;> cases h
    · intro e he
      rcases Keyed.mem_modifyFirst he with he | ⟨d, hd, rfl⟩
      · exact hst e he
      · exact hpid d p (hst d (List.mem_of_find?_eq_some hd))
    · exact hst
  | remove q =>
    cases ch <;> cases h
    · exact fun d hd => hst d (List.mem_of_mem_eraseP hd)
    · exact hst
  | findOne | find | execl =>
    cases ch <;> cases h <;> exact hst
  | kill p sig =>
    cases ch <;> cases h
    dsimp only
    split <;> exact hst
  | fork p =>
    obtain ⟨-, rfl⟩ | ⟨y, -, -, -, rfl⟩ := answer_fork h
    · exact hst
    · exact hst
  | assertFail => cases ch <;> cases h

namespace Sys.Recording

theorem boot {W : Int} {coll : List Doc} {os : Os} (h : ∀ d ∈ coll, K d) :
    (Sys.boot W coll os : Sys (Act Int)).Recording env K := ⟨h, Sys.Guarded.boot _ _ W coll os⟩

theorem setColl (h : s.Recording env K) {coll : List Doc} (hcoll : ∀ d ∈ coll, K d) :
    ({ s with coll } : Sys (Act Int)).Recording env K := ⟨hcoll, h.guarded.congr rfl rfl⟩

theorem move (hpid : ∀ d pid, K d → K { d with pid := pid }) (h : s.Recording env K)
    (hput : ∀ ev, l = .put ev → Event.Records env K ev) (hstep : step (service env) l s = some u) :
    u.Recording env K := by
  refine ⟨?_, h.guarded.step hstep hput (fun ev => calls_dispatch_records) ?_ (fun _ _ => id) ?_⟩
  · cases l with
    | call τ ch =>
      obtain ⟨t, c, k, x, ht, hv, hx, rfl⟩ := step_call hstep
      cases t with
      | ret rtn => cases hv
      | call c' k' =>
        cases hv
        exact records_of_answer hpid h.coll (h.guarded.thread ht).1 hx
    | put ev =>
      obtain ⟨n, w, -, -, rfl⟩ := step_put hstep
      exact h.coll
    | front i =>
      obtain ⟨ev, q, -, rfl⟩ := step_front hstep
      exact h.coll
    | pop i =>
      obtain ⟨ev₀, q, ev, t, rtn, -, -, rfl⟩ := step_pop hstep
      exact h.coll
    | abort i =>
      obtain ⟨-, rfl⟩ := step_abort hstep
      exact h.coll
    | detect =>
      obtain ⟨-, rfl⟩ := step_detect hstep
      exact h.coll
    | detectEnd =>
      obtain ⟨-, rfl⟩ := step_detectEnd hstep
      exact h.coll
    | die p =>
      obtain ⟨-, rfl⟩ := step_die hstep
      exact h.coll
    | appear p =>
      obtain ⟨-, rfl⟩ := step_appear hstep
      exact h.coll
  · exact (calls_processAliveDetect env).mono fun _ => records_of_scheduler
  · intro τ ch t c k x _ ht hv _
    cases t with
    | ret rtn => cases hv
    | call c' k' =>
      cases hv
      exact (h.guarded.thread ht).2 x.1

end Sys.Recording

end

/-! ### Runs -/

section

variable {names : List String}

theorem records_of_intact {env env' : Env} {ev : Event} (h : (Label.put ev).intact env names = true) :
    Event.Records env' (fun d => d.intact env names = true) ev := by
  intro hty pid
  have hkept : (processDoc env ev.process).intact env names = true := by simpa [Label.intact, hty] using h
  exact hkept

section

variable {env : Env} {ok : Sys (Act Int) → Label → Prop} {s u : Sys (Act Int)} {l : Label} {ls : List Label}

theorem Sys.Recording.move_intact (h : s.Recording env fun d => d.intact env names = true)
    (hl : l.intact env names = true) (hstep : step (service env) l s = some u) :
    u.Recording env fun d => d.intact env names = true := by
  refine h.move (fun _ _ => id) (fun ev he => ?_) hstep
  subst he
  exact records_of_intact hl

/-- **A run on strings that come back intact** is one of the service to which all of them come back. -/
theorem Sys.Recording.runs_keep (hs : s.Recording env fun d => d.intact env names = true)
    (hok : ∀ s l, ok s l → l.intact env names = true) (h : Runs (step (service env)) ok s ls u) :
    Runs (step (service (env.keep names))) ok s ls u :=
  h.exchange _ hs (fun t _ _ ht hl hstep => ht.move_intact (hok t _ hl) hstep) fun _ l ht => step_keep ht.coll l

variable {W : Int} {coll : List Doc} {os : Os}

theorem recording_of_runs (hcoll : ∀ d ∈ coll, d.intact env names = true)
    (hok : ∀ s l, ok s l → l.intact env names = true)
    (h : Runs (step (service env)) ok (Sys.boot W coll os) ls s) :
    s.Recording env fun d => d.intact env names = true :=
  h.inv _ (.boot hcoll) fun t _ _ ht hl hstep => ht.move_intact (hok t _ hl) hstep

theorem runs_keep (hcoll : ∀ d ∈ coll, d.intact env names = true)
    (hok : ∀ s l, ok s l → l.intact env names = true)
    (h : Runs (step (service env)) ok (Sys.boot W coll os) ls s) :
    Runs (step (service (env.keep names))) ok (Sys.boot W coll os) ls s :=
  Sys.Recording.runs_keep (.boot hcoll) hok h

end

/-- **Events executed one after another** on such strings. -/
theorem runEvents_keep {env : Env} {evs : List Event} {st : Store}
    (hst : ∀ d ∈ st.coll, d.intact env names = true)
    (hevs : ∀ ev ∈ evs, (Label.put ev).intact env names = true) :
    runEvents (env.keep names) evs st = runEvents env evs st := by
  induction evs generalizing st with
  | nil => rfl
  | cons ev evs ih =>
    have hcalls := @calls_dispatch_records env _ _ (records_of_intact (hevs ev List.mem_cons_self))
    have hI (c : Call) (st : Store) (x : Reply c × Store) (hc : c.Records fun d => d.intact env names = true)
        (hst : ∀ d ∈ st.coll, d.intact env names = true) (h : answerAlone env.shown c st = some x) :=
      records_of_answer (fun _ _ => id) hst hc h
    have hdispatch : ServerBiz.dispatch (env.keep names) ev = ServerBiz.dispatch env ev :=
      congrArg (fun t => t.dispatch ev) (service_keep env names)
    have hrun : Prog.run (answerAlone (env.keep names).shown) (ServerBiz.dispatch env ev) st =
        Prog.run (answerAlone env.shown) (ServerBiz.dispatch env ev) st :=
      Prog.run_congr hI (fun c st h => answer_keep h) hcalls hst
    rw [runEvents, runEvents, hdispatch, hrun]
    refine Option.bind_congr fun x hx => ?_
    exact ih (Prog.run_keeps hI hcalls hst hx) fun e he => hevs e (List.mem_cons_of_mem _ he)

variable {ι : Type} [DecidableEq ι]

/-- **A run of a cluster** whose strings come back intact to every host. -/
theorem runs_cluster_keep {env : ι → Env} {ok : Cluster ι (Act Int) → ι × Label → Prop} {W : ι → Int}
    {coll : List Doc} {os : ι → Os} {ls : List (ι × Label)} {c : Cluster ι (Act Int)}
    (hcoll : ∀ i, ∀ d ∈ coll, d.intact (env i) names = true)
    (hok : ∀ c l, ok c l → ∀ i, l.2.intact (env i) names = true)
    (h : Runs (clusterStep fun i => service (env i)) ok (Cluster.boot W coll os) ls c) :
    Runs (clusterStep fun i => service ((env i).keep names)) ok (Cluster.boot W coll os) ls c := by
  let K : Doc → Prop := fun d => ∀ i, d.intact (env i) names = true
  refine h.exchange (fun c => ∀ i, (c.sys i).Recording (env i) K) (fun i => ?_) ?_ fun t l ht => ?_
  · exact .boot fun d hd i => hcoll i d hd
  · intro t l u ht hl hstep i
    obtain ⟨s, hs, rfl⟩ := clusterStep_some hstep
    have hmove := (ht l.1).move (fun _ _ h => h) (fun ev he hty pid j => ?_) hs
    · by_cases hi : i = l.1
      · subst hi
        rw [Cluster.sys_set_self]
        exact hmove
      · rw [Cluster.sys_set_ne t hi]
        exact (ht i).setColl hmove.coll
    · have hj := hok t l hl j
      rw [he] at hj
      exact records_of_intact hj hty pid
  · simp only [clusterStep]
    rw [step_keep fun d hd => (ht l.1).coll d hd l.1]

end

end PullStream
