import PullStream.Control.Fleets
import PullStream.Control.Points
/-!
# The command of a respawn

`spawn_process` builds its command from the request and `spawn_process_i` from a record that was decoded from
the store. What lies between them (the bytes up to the first NUL are stored, any number of updates of the pid
are made) leaves the two URLs as the command sees them, so if rendering and parsing give the stored strings back
(`Env.Renders`), a respawn of a record runs the command of the start that the record was inserted for
(`respawns_run_original_command`).
-/

namespace PullStream

open Function Transition ServerBiz ProcessCtl Prog

/-- What the child of a `fork` passes to `execl`, `k` being the program after the `fork`. -/
def childCommand (k : Int → Act Int) : Option Str :=
  match k 0 with
  | .call (.execl cmd) _ => some cmd
  | _ => none

/-- The record has the sid and the URLs of the request it was inserted for, as the store holds them. -/
def Doc.Of (d : Doc) (ev : Event) : Prop :=
  d.sid = ev.key ∧ d.srcUrl = cStr ev.process.srcUrl ∧ d.destUrl = cStr ev.process.destUrl

theorem Doc.Of.command {d : Doc} {ev : Event} (h : d.Of ev) : ProcessCtl.command d = ProcessCtl.command ev.process := by
  rw [ProcessCtl.command, ProcessCtl.command, h.2.1, h.2.2, cStr_cStr, cStr_cStr]

/-- Rendering a document and parsing the text returns the stored strings unchanged. -/
def Env.Renders (env : Env) : Prop := ∀ name s, env.shown name s = s

theorem Env.Renders.seen {env : Env} (h : env.Renders) (d : Doc) : d.seen env.shown = d := by
  simp [Doc.seen, h _ _]

section

variable {ι : Type}

/-- An instance that is started gets the stored strings unchanged. -/
def FleetLabel.Renders : FleetLabel ι → Prop
  | .restart _ env _ => env.Renders
  | .act _ _ => True

namespace Fleet

def Faithful (f : Fleet ι) : Prop := ∀ r ∈ f.coll, ∀ ev, r.request = some ev → r.doc.Of ev

/-- The commands that children run are those of the requests. -/
structure RunsOriginal (f : Fleet ι) : Prop where
  /-- A start runs the command of its event. -/
  start : ∀ i w ev p k, (f.sys i).job w = some (ev, .call (.fork p) k) → ev.type = .createProcess →
    childCommand k = some (command ev.process)
  /-- A record decodes to the command of the request it was inserted for. -/
  record : ∀ r ∈ f.coll, ∀ ev, r.request = some ev → ∀ i info,
    command (parser (r.doc.text (f.env i).shown) info).2 = command ev.process
  /-- A thread that goes on from a query to a `fork` runs this command. -/
  respawn : ∀ i τ q k r ev, (f.sys i).thread τ = some (.call (.findOne q) k) →
    f.coll.find? (fun r => q.matches r.doc) = some r → r.request = some ev →
      ∀ p k', k (some (r.doc.text (f.env i).shown)) = .call (.fork p) k' → childCommand k' = some (command ev.process)

end Fleet

end

/-! ### What the threads do with an answer -/

/-- A thread that is busy with `o` forks for the record it has found, or for its start event, and inserts a
record of this event only. -/
def Call.Respawns (o : Option Event) : (c : Call) → (Reply c → Act Int) → Prop
  | .findOne _, k => ∀ shown (d : Doc) p k', k (some (d.text shown)) = .call (.fork p) k' → p = d.seen shown
  | .fork p, k => childCommand k = some (command p) ∧
      ∀ ev, o = some ev → ev.type = .createProcess → p = ev.process
  | .insert d, _ => ∃ ev, o = some ev ∧ d.Of ev
  | _, _ => True

section

variable {env : Env} {o : Option Event} {ev : Event}

theorem always_spawnProcess :
    (spawnProcess env ev.process).Always (Call.Respawns (some ev)) := by
  refine ⟨nofun, fun found => ?_⟩
  cases found with
  | some item => trivial
  | none =>
    refine ⟨⟨rfl, fun ev' h _ => ?_⟩, fun (pid : Int) => ?_⟩
    · cases h
      rfl
    · show (if pid < 0 then _ else if 0 < pid then _ else _ : Act Int).Always _
      split_ifs
      · trivial
      · refine ⟨⟨ev, rfl, rfl, rfl, rfl⟩, fun (done : Bool) => ?_⟩
        cases done <;> trivial
      · exact ⟨trivial, fun _ => trivial⟩

theorem always_spawnProcessI {p : ProcessInfo} {f : Int → Act Int}
    (ho : ∀ ev, o = some ev → ev.type ≠ .createProcess) (hf : ∀ a, (f a).Always (Call.Respawns o)) :
    (spawnProcessI env p >>= f).Always (Call.Respawns o) := by
  rw [Ctl.spawnProcessI_bind]
  refine ⟨⟨rfl, fun ev h hty => absurd hty (ho ev h)⟩, fun (pid : Int) => ?_⟩
  show (if pid < 0 then _ else if 0 < pid then _ else _ : Act Int).Always _
  split_ifs
  · exact hf _
  · refine ⟨trivial, fun (done : Bool) => ?_⟩
    cases done <;> exact hf _
  · exact ⟨trivial, fun _ => hf _⟩

theorem always_detectCode (l : List ProcessInfo) : (Ctl.detectCode env l).Always (Call.Respawns none) := by
  induction l with
  | nil => trivial
  | cons r l ih =>
    rw [Ctl.detectCode_cons]
    refine ⟨trivial, fun (ret : Int) => ?_⟩
    show (if decide (ret = 0) = true then _ else _ : Act Int).Always _
    split_ifs
    · exact ih
    · refine ⟨fun shown d p k' h => ?_, fun found => ?_⟩
      · cases h
        rfl
      · cases found with
        | none => exact ih
        | some item => exact always_spawnProcessI nofun fun _ => ih

theorem always_dispatch (env : Env) (ev : Event) :
    (ServerBiz.dispatch env ev).Always (Call.Respawns (some ev)) := by
  unfold ServerBiz.dispatch
  cases hty : ev.type with
  | createProcess => exact always_spawnProcess
  | removeProcess =>
    refine ⟨nofun, fun found => ?_⟩
    cases found with
    | none => trivial
    | some item =>
      refine ⟨trivial, fun (done : Bool) => ?_⟩
      cases done <;> exact ⟨trivial, fun _ => trivial⟩
  | reloadProcess =>
    refine ⟨fun shown d p k' h => ?_, fun found => ?_⟩
    · cases h
      rfl
    · cases found with
      | none => trivial
      | some item =>
        refine always_spawnProcessI (fun ev' h hty' => ?_) fun _ => trivial
        cases h
        rw [hty] at hty'
        cases hty'
  | terminateProcess => exact ⟨trivial, nofun⟩

theorem always_detect (env : Env) : (processAliveDetect env).Always (Call.Respawns none) :=
  ⟨trivial, fun _ => always_detectCode _⟩

end

/-! ### Runs -/

section

variable {ι : Type} {f f' : Fleet ι}

/-- The threads respawn what they find, and the records are those of their requests. -/
structure Fleet.Respawning (f : Fleet ι) : Prop where
  guarded : ∀ i, (f.sys i).Guarded (fun _ => True) fun o t => t.Always (Call.Respawns o)
  faithful : f.Faithful

namespace Fleet.Respawning

theorem runsOriginal (h : f.Respawning) (hrender : ∀ i, (f.env i).Renders) : f.RunsOriginal := by
  refine ⟨?_, ?_, ?_⟩
  · intro i w ev p k hjob hty
    obtain ⟨hchild, hp⟩ := ((h.guarded i).jobs w ev _ hjob).1
    rw [hchild, hp ev rfl hty]
  · intro r hr ev hev i info
    rw [parser_text, (hrender i).seen]
    exact (h.faithful r hr ev hev).command
  · intro i τ q k r ev ht hr hev p k' hk
    obtain ⟨hfound, hnext⟩ := (h.guarded i).thread ht
    obtain rfl : p = r.doc := (hfound _ r.doc p k' hk).trans ((hrender i).seen r.doc)
    have hfork := hnext (some (r.doc.text (f.env i).shown))
    rw [hk] at hfork
    rw [hfork.1.1]
    exact congrArg some (h.faithful r (List.mem_of_find?_eq_some hr) ev hev).command

variable [DecidableEq ι]

theorem step (h : f.Respawning) {l : FleetLabel ι} (hstep : fleetStep l f = some f') : f'.Respawning := by
  refine ⟨guarded_step (G := fun _ _ o t => t.Always (Call.Respawns o)) h.guarded hstep
    (fun _ _ _ => trivial) (fun i ev _ => always_dispatch _ ev) (fun i => always_detect _)
    (fun _ _ _ _ _ => id) ?_, fun r hr ev hev => ?_⟩
  · intro i τ ch c k x _ ht _
    exact ((h.guarded i).thread ht).2 x.1
  · cases l with
    | restart i env workerNum =>
      cases hstep
      exact h.faithful r hr ev hev
    | act i l =>
      rw [(act_sys hstep).2.1] at hr
      obtain hr | ⟨o, d, hmade, rfl⟩ | ⟨o, query, p, r₀, -, hr₀, rfl⟩ := mem_written hr
      · exact h.faithful r hr ev hev
      · obtain ⟨τ, k, -, rfl, ht⟩ := thread_of_made hmade
        obtain ⟨ev', hev', hd⟩ := ((h.guarded i).thread ht).1
        obtain rfl : ev' = ev := Option.some.inj (hev'.symm.trans hev)
        exact hd
      · exact h.faithful r₀ (List.mem_of_find?_eq_some hr₀) ev hev

end Fleet.Respawning

variable [DecidableEq ι] {env : ι → Env} {W : ι → Int} {os : ι → Os} {coll : List (Tracked ι)}
  {forks : List (Instance ι × Int)} {ls : List (FleetLabel ι)}

theorem renders_step {l : FleetLabel ι} (h : ∀ i, (f.env i).Renders) (hl : l.Renders)
    (hstep : fleetStep l f = some f') : ∀ i, (f'.env i).Renders := by
  cases l with
  | act i l =>
    rw [(Fleet.act_sys hstep).2.2.2.1]
    exact h
  | restart i env workerNum =>
    cases hstep
    intro j
    by_cases hj : j = i
    · subst hj
      have hnew : (update f.env j env j).Renders := by rw [update_self]; exact hl
      exact hnew
    · have hold : (update f.env i env j).Renders := by rw [update_of_ne hj]; exact h j
      exact hold

/-- **Every respawn of a record runs the command of the start that the record was inserted for**, if rendering and
parsing return the stored strings. -/
theorem respawns_run_original_command (hrender : ∀ i, (env i).Renders)
    (hcoll : (Fleet.boot env W os coll forks).Faithful)
    (h : Runs fleetStep (fun _ l => l.Renders) (Fleet.boot env W os coll forks) ls f) : f.RunsOriginal := by
  have hboot : (Fleet.boot env W os coll forks).Respawning := by
    refine ⟨fun i => ?_, hcoll⟩
    exact (Sys.Guarded.boot _ _ (W i) [] (os i)).congr rfl rfl
  have hend := h.inv (fun f => f.Respawning ∧ ∀ i, (f.env i).Renders) ⟨hboot, hrender⟩
    fun _ _ _ ht hl hstep => ⟨ht.1.step hstep, renders_step ht.2 hl hstep⟩
  exact hend.1.runsOriginal hend.2

/-- **The recorded sids end before the first NUL**: a record has its sid from the event it was inserted for. -/
theorem recorded_sids_end_at_nul (h : Runs fleetStep (fun _ _ => True) (Fleet.boot env W os [] forks) ls f) :
    ∀ r ∈ f.coll, cStr r.doc.sid = r.doc.sid := by
  have hboot : (Fleet.boot env W os [] forks).Respawning :=
    ⟨fun i => (Sys.Guarded.boot _ _ (W i) [] (os i)).congr rfl rfl, fun r hr => absurd hr List.not_mem_nil⟩
  refine (h.inv (fun t => t.Respawning ∧ ∀ r ∈ t.coll, cStr r.doc.sid = r.doc.sid)
    ⟨hboot, fun r hr => absurd hr List.not_mem_nil⟩ ?_).2
  intro t l u ⟨ht, hsids⟩ _ hstep
  refine ⟨ht.step hstep, fun r hr => ?_⟩
  cases l with
  | restart i env workerNum =>
    cases hstep
    exact hsids r hr
  | act i l =>
    rw [(Fleet.act_sys hstep).2.1] at hr
    obtain hr | ⟨o, d, hmade, rfl⟩ | ⟨o, query, p, r₀, -, hr₀, rfl⟩ := Fleet.mem_written hr
    · exact hsids r hr
    · obtain ⟨τ, k, -, -, hthread⟩ := Fleet.thread_of_made hmade
      obtain ⟨ev, -, hsid, -, -⟩ := ((ht.guarded i).thread hthread).1
      show cStr d.sid = d.sid
      rw [hsid]
      exact cStr_cStr ev.process.sid
    · exact hsids r₀ (List.mem_of_find?_eq_some hr₀)

end

/-! ### A stream reloaded by the next instance -/

/-- A start whose source has a NUL in it. -/
def nulEvent : Event :=
  ⟨{ sampleInfo [1] with srcUrl := [97, 0, 98], destUrl := [99] }, .createProcess⟩

def plainEnv : Env := { sampleEnv with shown := fun _ s => s }

/-- The stream is started, the service restarted, and the stream reloaded up to the `fork`. -/
def reloadOfNul : List (FleetLabel Unit) :=
  (.act () (.put nulEvent) :: (startLabels 0 10).map (.act ())) ++ [.restart () plainEnv 1,
    .act () (.put (reloadEvent [1])), .act () (.front 0)]

def reloadOfNulEnd : Fleet Unit :=
  (check fleetStep (fun _ _ => True) reloadOfNul
    (Fleet.boot (fun _ => plainEnv) (fun _ => 1) (fun _ => ⟨[], []⟩) [] [])).get (by decide)

theorem respawns_run_original_command_nul : reloadOfNulEnd.RunsOriginal := by
  have hcoll : (Fleet.boot (fun _ : Unit => plainEnv) (fun _ => 1) (fun _ => ⟨[], []⟩) [] []).Faithful :=
    fun r hr => absurd hr List.not_mem_nil
  have hlabels : ∀ l ∈ reloadOfNul, l.Renders := by
    simp [reloadOfNul, startLabels, FleetLabel.Renders, Env.Renders, plainEnv]
  exact respawns_run_original_command (fun _ _ _ => rfl) hcoll
    ((runs_get _).mem_label.mono fun _ l hl => hlabels l hl.2)

end PullStream
