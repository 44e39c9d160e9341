import PullStream.Control.Fleets
import PullStream.Control.Web
import PullStream.Control.Alone
import Mathlib.Data.Set.Insert
/-!
# Whose process a record names

A record's `ppid` and `host` are written by the insert; `update_process_info` changes the pid alone. So they
are true of the process that the pid names as long as every update is made by an instance with the pid that
the record has as its `ppid`, on the host that the record names, and become false with the first update that
is not (`ownership_kept_iff`). `find_orphan_process` compares the `ppid` with the caller's pid, so it also
needs that no other instance with this pid has left records.

What an instance writes is the pid of a process that it forked itself (`follows_dispatch`), whatever others
do meanwhile.
-/

namespace PullStream

open Function Transition ServerBiz ProcessCtl RestApi Prog

/-- A start names the host it is put on. -/
def Event.Hosted (host : Str) (ev : Event) : Prop := ev.type = .createProcess → ev.process.host = host

instance (host : Str) (ev : Event) : Decidable (ev.Hosted host) :=
  inferInstanceAs (Decidable (_ → _))

section

variable {ι : Type}

/-- The events put are those of the host's handlers. -/
def FleetLabel.hosted (name : ι → Str) : FleetLabel ι → Bool
  | .act i (.put ev) => decide (ev.Hosted (name i))
  | _ => true

namespace Fleet

/-- The `ppid` and the `host` of the record are those of the instance that forked its process. -/
def Owned (name : ι → Str) (f : Fleet ι) : Prop :=
  ∀ r ∈ f.coll, (r.forker, r.doc.pid) ∈ f.forks ∧ r.doc.ppid = r.forker.pid ∧
    r.doc.host = cStr (name r.forker.host)

/-- An update by the instance on host `i` finds a record of its own. -/
def updatesOwn (name : ι → Str) (f : Fleet ι) : FleetLabel ι → Bool
  | .act i l =>
    match f.made i l with
    | some (_, .update query _, .ok) =>
      match f.coll.find? fun r => query.matches r.doc with
      | some r => decide (r.doc.ppid = (f.env i).pid ∧ r.doc.host = cStr (name i))
      | none => true
    | _ => true
  | .restart _ _ _ => true

/-- No other instance with the pid of one that runs has left records. -/
def ownPids (f : Fleet ι) : Prop := ∀ i, ∀ r ∈ f.coll, r.forker.pid = (f.env i).pid → r.forker = f.current i

variable [DecidableEq ι]

/-- `find_orphan_process` finds exactly the records whose process the instance did not fork, as it sees them. -/
def findsOrphans (f : Fleet ι) : Prop :=
  ∀ i xs r, exec (answer (f.env i).shown) succeeds xs (findOrphanProcess (f.env i)) (f.sys i).store = some r →
    r.1.2 = (f.coll.filter fun r => r.forker ≠ f.current i).map fun r => r.doc.seen (f.env i).shown

end Fleet

end

/-! ### What the handlers put -/

theorem host_of_startFields {rest : Rest} {root : Root} {ev : Event}
    (h : startFields rest root = .ok (.accept ev)) : ev.process.host = rest.host := by
  unfold startFields at h
  obtain ⟨srcUrl, -, h⟩ := bind_ok h
  obtain ⟨destUrl, -, h⟩ := bind_ok h
  obtain ⟨sid, -, h⟩ := bind_ok h
  obtain ⟨type, -, h⟩ := bind_ok h
  split_ifs at h
  all_goals cases h
  rfl

/-- The handlers of a host put hosted events. -/
theorem calls_hosted (rest : Rest) (r : Request) :
    (r.handler rest).Calls (HttpCall.Puts (Event.Hosted rest.host)) := by
  obtain ⟨route, body⟩ := r
  cases route with
  | start =>
    refine calls_handle fun ev hev _ => ?_
    obtain ⟨root, hroot⟩ := accepted_some hev
    exact host_of_startFields hroot
  | stop =>
    refine calls_handle fun ev hev hty => ?_
    obtain ⟨root, hroot⟩ := accepted_some hev
    rw [type_of_stopFields hroot] at hty
    cases hty
  | startI =>
    refine calls_handle fun ev hev hty => ?_
    obtain ⟨root, hroot⟩ := accepted_some hev
    rw [type_of_startIFields hroot] at hty
    cases hty
  | stopI =>
    refine calls_handle fun ev hev hty => ?_
    obtain ⟨root, hroot⟩ := accepted_some hev
    obtain ⟨pid, -, hroot⟩ := bind_ok hroot
    cases hroot
    cases hty
  | checkAliveI => exact calls_reply _ none _

/-! ### What an instance writes -/

/-- The call writes the pid of a process of `F` only, and inserts with the pid and the host given. -/
def Call.Writes (q : Int) (host : Str) (F : Set Int) : Call → Prop
  | .insert d => d.pid ∈ F ∧ d.ppid = q ∧ d.host = host
  | .update _ p => p ∈ F
  | _ => True

/-- The processes `F` forked so far have become `F'`, the one that the call forked among them. -/
def Call.Forks (F : Set Int) : (c : Call) → Reply c → Set Int → Prop
  | .fork _, (x : Int), F' => F ⊆ F' ∧ (0 < x → x ∈ F')
  | _, _, F' => F ⊆ F'

/-- The instance with pid `q` on the host writes what it may. -/
abbrev Act.Keeps {α : Type} (q : Int) (host : Str) (F : Set Int) (p : Act α) : Prop :=
  p.Follows (Call.Writes q host) Call.Forks F

section

variable {env : Env} {host : Str} {F F' : Set Int} {p : ProcessInfo}

theorem keeps_mono {q : Int} {t : Act Int} (hF : F ⊆ F') (h : Act.Keeps q host F t) :
    Act.Keeps q host F' t := by
  refine Follows.mono (fun c hc => ?_) (fun c x F'' hx => ?_) h
  · cases c with
    | insert d => exact ⟨hF hc.1, hc.2⟩
    | update query p => exact hF hc
    | _ => trivial
  · cases c with
    | fork param => exact ⟨hF.trans hx.1, hx.2⟩
    | _ => exact hF.trans hx

theorem keeps_spawnProcess (hhost : cStr p.host = host) :
    Act.Keeps env.pid host F (spawnProcess env p) := by
  refine ⟨trivial, fun found F₁ _ => ?_⟩
  cases found with
  | some item => trivial
  | none =>
    refine ⟨trivial, fun (pid : Int) F₂ h₂ => ?_⟩
    show Follows _ _ F₂ (if pid < 0 then _ else if 0 < pid then _ else _ : Act Int)
    split_ifs with hneg hpos
    · trivial
    · refine ⟨⟨h₂.2 hpos, rfl, hhost⟩, fun (done : Bool) F₃ _ => ?_⟩
      cases done <;> trivial
    · exact ⟨trivial, fun _ _ _ => trivial⟩

theorem keeps_spawnProcessI (q : Int) : Act.Keeps q host F (spawnProcessI env p) := by
  refine ⟨trivial, fun (pid : Int) F₁ h₁ => ?_⟩
  show Follows _ _ F₁ (if pid < 0 then _ else if 0 < pid then _ else _ : Act Int)
  split_ifs with hneg hpos
  · trivial
  · refine ⟨h₁.2 hpos, fun (done : Bool) F₂ _ => ?_⟩
    cases done <;> trivial
  · exact ⟨trivial, fun _ _ _ => trivial⟩

theorem keeps_detectLoop (q : Int) (l : List ProcessInfo) : Act.Keeps q host F (detectLoop env l) := by
  induction l generalizing F with
  | nil => trivial
  | cons r l ih =>
    refine ⟨trivial, fun (ret : Int) F₁ _ => ?_⟩
    show Follows _ _ F₁ (if decide (ret = 0) = true then _ else _ : Act Unit)
    split_ifs
    · exact ih
    · refine ⟨trivial, fun found F₂ _ => ?_⟩
      cases found with
      | none => exact ih
      | some item =>
        show Act.Keeps q host F₂ (spawnProcessI env (parser item env.newInfo).2 >>= fun _ => detectLoop env l)
        exact follows_bind (keeps_spawnProcessI q) fun _ F₃ => ih

/-- **A worker that takes a hosted event writes the pids of its own forks.** -/
theorem keeps_dispatch {ev : Event} (h : ev.Hosted host) :
    Act.Keeps env.pid (cStr host) F (ServerBiz.dispatch env ev) := by
  unfold ServerBiz.dispatch
  cases hty : ev.type with
  | createProcess => exact keeps_spawnProcess (congrArg cStr (h hty))
  | removeProcess =>
    refine ⟨trivial, fun found F₁ _ => ?_⟩
    cases found with
    | none => trivial
    | some item =>
      refine ⟨trivial, fun (done : Bool) F₂ _ => ?_⟩
      cases done <;> exact ⟨trivial, fun _ _ _ => trivial⟩
  | reloadProcess =>
    refine ⟨trivial, fun found F₁ _ => ?_⟩
    cases found with
    | none => trivial
    | some item =>
      show Act.Keeps env.pid _ F₁ (spawnProcessI env (parser item env.newInfo).2 >>= fun _ => _)
      exact follows_bind (keeps_spawnProcessI env.pid) fun _ _ => trivial
  | terminateProcess => exact ⟨trivial, nofun⟩

theorem keeps_detect (q : Int) : Act.Keeps q host F (processAliveDetect env) := by
  refine ⟨trivial, fun vec F₁ _ => ?_⟩
  show Act.Keeps q host F₁ (detectLoop env (decodeAll vec env.newInfo) >>= fun _ => _)
  exact follows_bind (keeps_detectLoop q _) fun _ _ => trivial

end

namespace Fleet

/-! ### The invariant -/

/-- The processes that the instance on host `i` has forked. -/
def forkedBy {ι : Type} (f : Fleet ι) (i : ι) : Set Int := {p | (f.current i, p) ∈ f.forks}

/-- The instances keep to what they may write, and every record holds the pid of a process that its forker
forked. -/
structure Kept {ι : Type} (name : ι → Str) (f : Fleet ι) : Prop where
  guarded : ∀ i, (f.sys i).Guarded (Event.Hosted (name i)) fun _ =>
    Act.Keeps (f.env i).pid (cStr (name i)) (f.forkedBy i)
  forks : ∀ r ∈ f.coll, (r.forker, r.doc.pid) ∈ f.forks

section

variable {ι : Type} {name : ι → Str} {f f' : Fleet ι} {i : ι} {l : Label}

theorem Kept.writes (h : f.Kept name) {o : Option Event} {c : Call} {ch : Choice}
    (hmade : f.made i l = some (o, c, ch)) : Call.Writes (f.env i).pid (cStr (name i)) (f.forkedBy i) c := by
  obtain ⟨τ, k, rfl, -, ht⟩ := thread_of_made hmade
  exact ((h.guarded i).thread ht).1

variable [DecidableEq ι]

theorem Kept.step (h : f.Kept name) {l : FleetLabel ι} (hput : l.hosted name = true)
    (hstep : fleetStep l f = some f') : f'.Kept name := by
  have hforks : ∀ a ∈ f.forks, a ∈ f'.forks := by
    cases l with
    | act i l =>
      rw [(act_sys hstep).2.2.1]
      exact fun a => List.mem_append_left _
    | restart i env workerNum =>
      cases hstep
      exact fun _ => id
  have hcurrent : ∀ j, f'.env j = f.env j → f'.number j = f.number j → f'.current j = f.current j := by
    intro j henv hnumber
    rw [current, henv, hnumber, current]
  have hsub : ∀ j, f'.env j = f.env j → f'.number j = f.number j → f.forkedBy j ⊆ f'.forkedBy j := by
    intro j henv hnumber p hp
    show (f'.current j, p) ∈ f'.forks
    rw [hcurrent j henv hnumber]
    exact hforks _ hp
  refine ⟨guarded_step (G := fun f i _ => Act.Keeps (f.env i).pid (cStr (name i)) (f.forkedBy i)) h.guarded
    hstep ?_ ?_ ?_ ?_ ?_, fun r hr => ?_⟩
  · rintro i ev rfl
    exact of_decide_eq_true hput
  · exact fun i ev hev => keeps_dispatch hev
  · exact fun i => keeps_detect _
  · intro j henv hnumber _ t
    rw [henv]
    exact keeps_mono (hsub j henv hnumber)
  · rintro i τ ch c k x rfl ht hx
    obtain ⟨-, -, hforks', henv, hnumber, -⟩ := act_sys hstep
    have hsub' : f.forkedBy i ⊆ f'.forkedBy i := hsub i (congrFun henv i) (congrFun hnumber i)
    rw [henv]
    apply ((h.guarded i).thread ht).2
    cases c with
    | fork param =>
      refine ⟨hsub', fun hpos => ?_⟩
      obtain ⟨-, rfl⟩ | ⟨y, -, -, rfl, rfl⟩ := answer_fork hx
      · exact absurd hpos (Int.not_lt.mpr (by decide : (-1 : Int) ≤ 0))
      · show (f'.current i, y) ∈ f'.forks
        rw [hcurrent i (congrFun henv i) (congrFun hnumber i), hforks', forked, made_call ht rfl]
        exact List.mem_append_right _ List.mem_cons_self
    | _ => exact hsub'
  · cases l with
    | restart i env workerNum =>
      cases hstep
      exact h.forks r hr
    | act i l =>
      rw [(act_sys hstep).2.1] at hr
      obtain hr | ⟨o, d, hmade, rfl⟩ | ⟨o, query, p, r₀, hmade, -, rfl⟩ := mem_written hr
      · exact hforks _ (h.forks r hr)
      · exact hforks _ (h.writes hmade).1
      · exact hforks _ (h.writes hmade)

/-- **A step keeps the fields true exactly if it updates none but an own record.** -/
theorem Kept.owned_iff (h : f.Kept name) (hown : f.Owned name) {l : FleetLabel ι}
    (hput : l.hosted name = true) (hstep : fleetStep l f = some f') :
    f'.Owned name ↔ f.updatesOwn name l = true := by
  cases l with
  | restart i env workerNum =>
    cases hstep
    exact iff_of_true hown rfl
  | act i l =>
    have hkept := h.step hput hstep
    obtain ⟨-, hcoll, -⟩ := act_sys hstep
    constructor
    · intro hown'
      simp only [updatesOwn]
      split
      · rename_i o query p hmade
        split
        · rename_i r hr
          have hmem : { r with doc := { r.doc with pid := p }, forker := f.current i } ∈ f'.coll := by
            rw [hcoll, written, hmade]
            exact Keyed.mem_modifyFirst_of_find? hr
          exact decide_eq_true (hown' _ hmem).2
        · rfl
      · rfl
    · intro hupd r hr
      refine ⟨hkept.forks r hr, ?_⟩
      rw [hcoll] at hr
      obtain hr | ⟨o, d, hmade, rfl⟩ | ⟨o, query, p, r₀, hmade, hr₀, rfl⟩ := mem_written hr
      · exact (hown r hr).2
      · exact (h.writes hmade).2
      · simp only [updatesOwn, hmade, hr₀] at hupd
        exact of_decide_eq_true hupd

/-! ### Orphans -/

theorem exec_findOrphanProcess {env : Env} {st : Store} {xs : List Choice}
    {r : (Int × List ProcessInfo) × Store} :
    exec (answer env.shown) succeeds xs (findOrphanProcess env) st = some r ↔
      xs = [.ok] ∧ r = ((0, (st.coll.filter fun d => d.ppid ≠ env.pid).map (Doc.seen env.shown)), st) := by
  have hfound : (decodeAll
      ((st.coll.filter (Query.ppidNe env.pid).matches).map (Doc.text env.shown)) env.newInfo).filter
      (fun item => item.ppid ≠ env.pid) = (st.coll.filter fun d => d.ppid ≠ env.pid).map (Doc.seen env.shown) := by
    rw [decodeAll_text, List.filter_map, List.filter_filter]
    exact congrArg _ (List.filter_congr fun d _ => Bool.and_self _)
  constructor
  · intro h
    obtain ⟨ch, xs, y, rfl, hok, hy, h⟩ := exec_call.mp h
    obtain ⟨rfl, hr⟩ := exec_ret.mp h
    cases ch with
    | ok =>
      cases hy
      exact ⟨rfl, hr.trans (congrArg (fun l => ((0, l), st)) hfound)⟩
    | dbFail => cases hok
    | _ => cases hy
  · rintro ⟨rfl, rfl⟩
    refine exec_call.mpr ⟨.ok, [], _, rfl, rfl, rfl, exec_ret.mpr ⟨rfl, ?_⟩⟩
    exact (congrArg (fun l => ((0, l), st)) hfound).symm

/-- **`find_orphan_process` is exact exactly if no other instance with the caller's pid left records.** -/
theorem findsOrphans_iff (hown : f.Owned name) : f.findsOrphans ↔ f.ownPids := by
  have hfound : ∀ i, (f.coll.map (·.doc)).filter (fun d => d.ppid ≠ (f.env i).pid) =
      (f.coll.filter fun r => r.forker.pid ≠ (f.env i).pid).map (·.doc) := by
    intro i
    rw [List.filter_map]
    refine congrArg _ (List.filter_congr fun r hr => ?_)
    simp [(hown r hr).2.1]
  constructor
  · intro h i r hr hpid
    by_contra hne
    have hall := h i [.ok] _ (exec_findOrphanProcess.mpr ⟨rfl, rfl⟩)
    have hmem : r.doc.seen (f.env i).shown ∈
        (f.coll.filter fun r => r.forker ≠ f.current i).map fun r => r.doc.seen (f.env i).shown :=
      List.mem_map_of_mem (f := fun r : Tracked ι => r.doc.seen (f.env i).shown)
        (List.mem_filter.mpr ⟨hr, decide_eq_true hne⟩)
    rw [← hall] at hmem
    obtain ⟨d, hd, hseen⟩ := List.mem_map.mp hmem
    have hppid : d.ppid ≠ (f.env i).pid := of_decide_eq_true (List.mem_filter.mp hd).2
    have hsame : (d.seen (f.env i).shown).ppid = (r.doc.seen (f.env i).shown).ppid := congrArg _ hseen
    exact hppid (hsame.trans ((hown r hr).2.1.trans hpid))
  · intro h i xs r hr
    obtain ⟨-, rfl⟩ := exec_findOrphanProcess.mp hr
    have hdocs := congrArg (List.map (Doc.seen (f.env i).shown)) (hfound i)
    rw [List.map_map] at hdocs
    refine hdocs.trans (congrArg _ (List.filter_congr fun r hr => ?_))
    have hiff : r.forker.pid = (f.env i).pid ↔ r.forker = f.current i :=
      ⟨h i r hr, fun heq => heq ▸ rfl⟩
    simp [hiff]

end

end Fleet

/-! ### Runs -/

section

variable {ι : Type} [DecidableEq ι] {name : ι → Str} {env : ι → Env} {W : ι → Int} {os : ι → Os}
  {coll : List (Tracked ι)} {forks : List (Instance ι × Int)} {ls : List (FleetLabel ι)} {f : Fleet ι}

/-- **The fields of the records are true in every state if and only if every update finds a record of the
instance that makes it, and then `find_orphan_process` is exact if and only if no other instance with the
caller's pid has left records.** -/
theorem ownership_kept_iff (hcoll : (Fleet.boot env W os coll forks).Owned name) :
    ((Runs fleetStep (fun f l => l.hosted name = true ∧ f.Owned name) (Fleet.boot env W os coll forks) ls f ∧
        f.Owned name) ↔
      Runs fleetStep (fun f l => l.hosted name = true ∧ f.updatesOwn name l = true)
        (Fleet.boot env W os coll forks) ls f) ∧
    (Runs fleetStep (fun f l => l.hosted name = true ∧ f.updatesOwn name l = true)
        (Fleet.boot env W os coll forks) ls f → (f.findsOrphans ↔ f.ownPids)) := by
  have hboot : (Fleet.boot env W os coll forks).Kept name := by
    refine ⟨fun i => ?_, fun r hr => (hcoll r hr).1⟩
    exact (Sys.Guarded.boot _ _ (W i) [] (os i)).congr rfl rfl
  have halways : (Runs fleetStep (fun f l => l.hosted name = true ∧ f.Owned name)
      (Fleet.boot env W os coll forks) ls f ∧ f.Owned name) ↔
      Runs fleetStep (fun f l => l.hosted name = true ∧ f.updatesOwn name l = true)
        (Fleet.boot env W os coll forks) ls f := by
    refine Runs.always_iff (Fleet.Kept name) (Fleet.Owned name) hboot hcoll ?_ ?_
    · exact fun t l u ht hl hstep => ht.step hl hstep
    · exact fun t l u ht hown hl hstep => ht.owned_iff hown hl hstep
  exact ⟨halways, fun h => Fleet.findsOrphans_iff (halways.mpr h).2⟩

end

/-! ### A stream reloaded after a restart -/

/-- No thread of any host is inside a function. -/
def Fleet.Quiet {ι : Type} (f : Fleet ι) : Prop := ∀ i τ, (f.sys i).thread τ = none

def restartEnv : Env := { sampleEnv with pid := 2 }

def onlyHost (_ : Unit) : Str := []

def emptyFleet : Fleet Unit := Fleet.boot (fun _ => sampleEnv) (fun _ => 1) (fun _ => ⟨[], []⟩) [] []

/-- A stream is started, and the service is restarted. -/
def startAndRestart : List (FleetLabel Unit) :=
  (.act () (.put (startEvent [1])) :: (startLabels 0 10).map (.act ())) ++ [.restart () restartEnv 1]

/-- The new instance starts another stream and reloads it. -/
def ownReload : List (FleetLabel Unit) :=
  startAndRestart ++ (.act () (.put (startEvent [2])) :: (startLabels 0 11).map (.act ())) ++
    (.act () (.put (reloadEvent [2])) :: (startLabels 0 12).map (.act ()))

def ownReloadEnd : Fleet Unit :=
  (check fleetStep (fun f l => l.hosted onlyHost = true ∧ f.updatesOwn onlyHost l = true) ownReload
    emptyFleet).get (by decide)

theorem ownership_kept_iff_own :
    ((Runs fleetStep (fun f l => l.hosted onlyHost = true ∧ f.Owned onlyHost) emptyFleet ownReload ownReloadEnd ∧
        ownReloadEnd.Owned onlyHost) ↔
      Runs fleetStep (fun f l => l.hosted onlyHost = true ∧ f.updatesOwn onlyHost l = true) emptyFleet ownReload
        ownReloadEnd) ∧
    (ownReloadEnd.findsOrphans ↔ ownReloadEnd.ownPids) := by
  have hcoll : emptyFleet.Owned onlyHost := fun r hr => absurd hr List.not_mem_nil
  exact ⟨(ownership_kept_iff hcoll).1, (ownership_kept_iff hcoll).2 (runs_get _)⟩

/-- The new instance reloads the stream of the old one. -/
def strayReload : List (FleetLabel Unit) :=
  startAndRestart ++ (.act () (.put (reloadEvent [1])) :: (startLabels 0 11).map (.act ()))

def strayReloadEnd : Fleet Unit :=
  (check fleetStep (fun _ l => l.hosted onlyHost = true) strayReload emptyFleet).get (by decide)

theorem ownership_lost :
    (¬ ∀ (name : Unit → Str) (ls : List (FleetLabel Unit)) (f : Fleet Unit),
      Runs fleetStep (fun _ l => l.hosted name = true) emptyFleet ls f → f.Quiet → f.Owned name) ∧
    ¬ ∀ (name : Unit → Str) (ls : List (FleetLabel Unit)) (f : Fleet Unit),
      Runs fleetStep (fun _ l => l.hosted name = true) emptyFleet ls f → f.Quiet → f.findsOrphans := by
  have hquiet : strayReloadEnd.Quiet := by
    rintro ⟨⟩ (i | _)
    · cases i <;> rfl
    · rfl
  refine ⟨fun h => ?_, fun h => ?_⟩
  · have hown := h onlyHost strayReload strayReloadEnd (runs_get _) hquiet _ List.mem_cons_self
    revert hown
    decide
  · have hall := h onlyHost strayReload strayReloadEnd (runs_get _) hquiet () [.ok] _
      (Fleet.exec_findOrphanProcess.mpr ⟨rfl, rfl⟩)
    revert hall
    decide

end PullStream
