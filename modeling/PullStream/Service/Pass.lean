import PullStream.Control.Intact
import PullStream.Control.Solo
/-!
# One pass of the scheduler

A pass reads all records and goes through them. Where the recorded process is gone it looks the record up
again by this pid, which several records may have, forks, and writes the new pid into the record of the
sid found. When the pass runs alone, the records it has been through have live pids, so the lookup finds
the very record the pass has come to. If its sid comes back from the store as it is, the update is made for
this record, and it gets the new process (`repairs_detectNext`). Otherwise it is left without a process
(`kept_of_alive`). So a pass repairs every record whose process is gone, with one process each, and changes
nothing else, exactly if their sids come back (`pass_repairs_iff`).
-/

namespace PullStream

open ServerBiz Prog

/-- The record is unchanged if its process was alive, and else has got another pid. -/
def Repaired (os : Os) (d d' : Doc) : Prop :=
  d' = { d with pid := d'.pid } ∧ (os.alive d.pid = true → d' = d)

/-- From the store `st` to `st'`, the records `rest` behind `done` were repaired. -/
structure Repairs (env : Env) (done rest : List Doc) (st st' : Store) : Prop where
  coll : ∃ rest', st'.coll = done ++ rest' ∧ List.Forall₂ (Repaired st.os) rest rest' ∧
    ∀ d ∈ rest', st'.os.alive d.pid = true
  procs : ∃ forked, st'.os.procs = st.os.procs ++ forked ∧
    forked.map (·.owner) = (rest.filter fun d => !st.os.alive d.pid).map fun d => some (d.seen env.shown)

section

variable {env : Env} {st : Store} {done rest : List Doc} {d : Doc} {x p : Int} {os : Os}
  {xs : List Choice} {r : Int × Store}

theorem alive_mono {os' : Os} {l : List Proc} (hos : os'.procs = os.procs ++ l) (h : os.alive p = true) :
    os'.alive p = true := by
  obtain ⟨b, hb, hp⟩ := alive_iff.mp h
  exact alive_iff.mpr ⟨b, hos ▸ List.mem_append_left l hb, hp⟩

theorem find?_dead (hdone : ∀ b ∈ done, os.alive b.pid = true) (hd : os.alive d.pid = false) :
    (done ++ d :: rest).find? (Query.pid d.pid).matches = some d := by
  have hmatch : (Query.pid d.pid).matches d = true := decide_eq_true rfl
  have hnone : done.find? (Query.pid d.pid).matches = none := by
    rw [List.find?_eq_none]
    intro b hb hbd
    have halive := hdone b hb
    rw [of_decide_eq_true hbd, hd] at halive
    cases halive
  rw [List.find?_append, hnone, Option.none_or, List.find?_cons_of_pos hmatch]

namespace Repairs

variable {st' : Store}

theorem nil (h : st.coll = done) : Repairs env done [] st st where
  coll := ⟨[], by simp [h], .nil, by simp⟩
  procs := ⟨[], by simp, rfl⟩

theorem alive (hd : st.os.alive d.pid = true) (h : Repairs env (done ++ [d]) rest st st') :
    Repairs env done (d :: rest) st st' := by
  obtain ⟨rest', hcoll, hrep, halive⟩ := h.coll
  obtain ⟨forked, hprocs, howner⟩ := h.procs
  refine ⟨⟨d :: rest', by simp [hcoll], .cons ⟨rfl, fun _ => rfl⟩ hrep, ?_⟩, ⟨forked, hprocs, ?_⟩⟩
  · intro e he
    rcases List.mem_cons.mp he with rfl | he
    · exact alive_mono hprocs hd
    · exact halive e he
  · rw [List.filter_cons_of_neg (by simp [hd]), howner]

theorem dead (hd : st.os.alive d.pid = false) {coll : List Doc} (hrest : ∀ e ∈ rest, e.pid ≠ x)
    (h : Repairs env (done ++ [{ d with pid := x }]) rest ⟨coll, st.os.add ⟨x, some (d.seen env.shown)⟩⟩ st') :
    Repairs env done (d :: rest) st st' := by
  obtain ⟨rest', hcoll, hrep, halive⟩ := h.coll
  obtain ⟨forked, hprocs, howner⟩ := h.procs
  have hprocs' : st'.os.procs = st.os.procs ++ (⟨x, some (d.seen env.shown)⟩ :: forked) := by
    rw [hprocs]
    simp [Os.add]
  refine ⟨⟨{ d with pid := x } :: rest', by simp [hcoll], .cons ⟨rfl, ?_⟩ ?_, ?_⟩, ⟨_, hprocs', ?_⟩⟩
  · simp [hd]
  · refine hrep.imp fun e e' he => ⟨he.1, fun hlive => he.2 ?_⟩
    rw [alive_add, hlive, Bool.true_or]
  · intro e he
    rcases List.mem_cons.mp he with rfl | he
    · exact alive_iff.mpr ⟨⟨x, some (d.seen env.shown)⟩, by simp [hprocs'], rfl⟩
    · exact halive e he
  · rw [List.filter_cons_of_pos (by simp [hd]), List.map_cons, howner, List.map_cons]
    congr 2
    apply List.filter_congr
    intro e he
    simp [alive_add, Ne.symm (hrest e he)]

end Repairs

/-- **The loop repairs the records it still has to go through**, if it has left live pids behind. -/
theorem repairs_detectNext (hcoll : st.coll = done ++ rest) (hsids : (st.coll.map (·.sid)).Nodup)
    (hkeep : ∀ d ∈ rest, st.os.alive d.pid = false → env.KeepsSid d.sid) (hdone : ∀ d ∈ done, st.os.alive d.pid = true)
    (h : exec (answer env.shown) succeedsFresh xs
      ((Ctl.detectNext (rest.map (Doc.seen env.shown))).code env) st = some r) : Repairs env done rest st r.2 := by
  induction rest generalizing done st xs with
  | nil =>
    obtain ⟨-, rfl⟩ := exec_done h
    exact .nil (by simpa using hcoll)
  | cons d rest ih =>
    have hrest := fun e he => hkeep e (List.mem_cons_of_mem d he)
    obtain ⟨op, ch, xs, c, st₁, rfl, -, hok, hacts, h⟩ := exec_step h nofun
    have hprobe := hacts.cstep trivial (by rintro rfl; cases hok)
    cases hprobe with
    | probeAlive hd =>
      replace hd : st.os.alive d.pid = true := hd
      apply Repairs.alive hd
      apply ih (by simpa using hcoll) hsids hrest _ h
      intro e he
      rcases List.mem_append.mp he with he | he
      · exact hdone e he
      · rwa [List.mem_singleton.mp he]
    | probeDead hd =>
      replace hd : st.os.alive d.pid = false := hd
      have hfind : st.coll.find? (Query.pid d.pid).matches = some d := hcoll ▸ find?_dead hdone hd
      obtain ⟨op, ch, xs, c, st₁, rfl, -, hok, hacts, h⟩ := exec_step h nofun
      have hlookup := hacts.cstep trivial (by rintro rfl; cases hok)
      cases hlookup with
      | lookupAbsent hnone => cases hnone.symm.trans hfind
      | @lookupFound _ _ e he =>
        obtain rfl : d = e := Option.some.inj (hfind.symm.trans he)
        obtain ⟨op, ch, xs, c, st₁, rfl, -, hok, hacts, h⟩ := exec_step h nofun
        have hfork := hacts.cstep trivial (by rintro rfl; cases hok)
        cases hfork with
        | detectForkFailed => cases hok
        | @detectForked _ _ x hx hfree =>
          have hnew : x ∉ st.coll.map (·.pid) := of_decide_eq_true hok
          obtain ⟨op, ch, xs, c, st₁, rfl, -, hok, hacts, h⟩ := exec_step h nofun
          have hupdate := hacts.cstep trivial (by rintro rfl; cases hok)
          cases hupdate with
          | detectUpdate =>
            have hset : setPid (cStr (d.seen env.shown).sid) x st.coll = done ++ { d with pid := x } :: rest := by
              have hsid : cStr (d.seen env.shown).sid = d.sid := hkeep d List.mem_cons_self hd
              rw [hsid, hcoll]
              exact setPid_append (hcoll ▸ hsids)
            dsimp only at h
            rw [hset] at h
            have hlater : ∀ e ∈ rest, (st.os.add ⟨x, some (d.seen env.shown)⟩).alive e.pid = false →
                env.KeepsSid e.sid := by
              intro e he hdead
              rw [alive_add, Bool.or_eq_false_iff] at hdead
              exact hrest e he hdead.1
            apply Repairs.dead hd (fun e he hp => hnew ?_)
            · apply ih _ _ hlater _ h
              · simp
              · simpa [hcoll] using hsids
              · intro e he
                rw [alive_add]
                rcases List.mem_append.mp he with he | he
                · simp [hdone e he]
                · simp [List.mem_singleton.mp he]
            · rw [hcoll, ← hp]
              exact List.mem_map_of_mem (by simp [he])

theorem exists_pass (env : Env) (st : Store) :
    ∃ xs r, exec (answer env.shown) succeedsFresh xs (processAliveDetect env) st = some r := by
  refine exists_exec (fun op st hop => ?_) (calls_processAliveDetect env) st
  cases op with
  | fork param =>
    let l := st.os.procs.map (·.pid) ++ st.coll.map (·.pid)
    have hfresh : maxPid l + 1 ∉ l := fun hmem => by
      have hle := le_maxPid hmem
      omega
    have hpos : 0 < maxPid l + 1 := by
      have hnonneg := maxPid_nonneg l
      omega
    have hfree : st.os.alive (maxPid l + 1) = false := by
      rw [Bool.eq_false_iff]
      intro halive
      obtain ⟨a, ha, hp⟩ := alive_iff.mp halive
      exact hfresh (hp ▸ List.mem_append_left _ (List.mem_map_of_mem ha))
    refine ⟨.pid (maxPid l + 1), _, ?_, if_pos ⟨hpos, hfree⟩⟩
    exact decide_eq_true fun hmem => hfresh (List.mem_append_right _ hmem)
  | execl cmd => exact ⟨.execFail, _, rfl, rfl⟩
  | insert | assertFail => cases hop
  | _ => exact ⟨.ok, _, rfl, rfl⟩

/-- **If every record ends up with a live pid, the sids of those that had none come back.** A record whose sid
does not come back is never written to by the thread that finds it. It would have to be written to for another
record, whose sid does not come back either, and which then has a dead pid to the end. -/
theorem kept_of_alive (hsids : (st.coll.map (·.sid)).Nodup) {l : List ProcessInfo}
    (h : exec (answer env.shown) succeedsFresh xs ((Ctl.detectNext l).code env) st = some r)
    (hend : ∀ d ∈ r.2.coll, r.2.os.alive d.pid = true) :
    ∀ d ∈ st.coll, st.os.alive d.pid = false → env.KeepsSid d.sid := by
  induction l generalizing st xs with
  | nil =>
    obtain ⟨-, rfl⟩ := exec_done h
    intro d hd hdead
    rw [hend d hd] at hdead
    cases hdead
  | cons p l ih =>
    obtain ⟨op, ch, xs, c, st₁, rfl, -, hok, hacts, h⟩ := exec_step h nofun
    have hprobe := hacts.cstep trivial (by rintro rfl; cases hok)
    cases hprobe with
    | probeAlive => exact ih hsids h
    | probeDead hdead =>
      obtain ⟨op, ch, xs, c, st₁, rfl, -, hok, hacts, h⟩ := exec_step h nofun
      have hlookup := hacts.cstep trivial (by rintro rfl; cases hok)
      cases hlookup with
      | lookupAbsent => exact ih hsids h
      | @lookupFound _ _ e he =>
        obtain ⟨hmem, hpid⟩ := of_find?_pid he
        obtain ⟨op, ch, xs, c, st₁, rfl, -, hok, hacts, h⟩ := exec_step h nofun
        have hfork := hacts.cstep trivial (by rintro rfl; cases hok)
        cases hfork with
        | detectForkFailed => cases hok
        | @detectForked _ _ x hx hfree =>
          have hnew : x ∉ st.coll.map (·.pid) := of_decide_eq_true hok
          obtain ⟨op, ch, xs, c, st₁, rfl, -, hok, hacts, h⟩ := exec_step h nofun
          have hupdate := hacts.cstep trivial (by rintro rfl; cases hok)
          cases hupdate with
          | detectUpdate =>
            have hset := @sids_setPid (cStr (env.shown "sid" e.sid)) x st.coll
            have hlater := ih (hset.symm ▸ hsids) h
            -- what the update leaves alone has a dead pid as before
            have hkeep : ∀ d ∈ st.coll, d.sid ≠ cStr (env.shown "sid" e.sid) → st.os.alive d.pid = false →
                env.KeepsSid d.sid := by
              intro d hd hne hgone
              refine hlater d (Keyed.mem_modifyFirst_of_not hd (decide_eq_false hne)) ?_
              rw [alive_add, hgone, Bool.false_or, decide_eq_false_iff_not]
              exact fun hx : x = d.pid => hnew (hx ▸ List.mem_map_of_mem hd)
            intro d hd hgone
            by_cases hsid : d.sid = cStr (env.shown "sid" e.sid)
            · by_cases heq : e.sid = cStr (env.shown "sid" e.sid)
              · rw [hsid, ← heq]
                exact heq.symm
              · exact absurd (hkeep e hmem heq (hpid ▸ hdead)).symm heq
            · exact hkeep d hd hsid hgone

/-- A pass forks one process for each record whose process is gone, every record then has a live pid, and nothing
else has changed. -/
def PassRepairs (env : Env) (st st' : Store) : Prop :=
  (∃ forked, st'.os.procs = st.os.procs ++ forked ∧
    forked.map (·.owner) = (st.coll.filter fun d => !st.os.alive d.pid).map fun d => some (d.seen env.shown)) ∧
  List.Forall₂ (Repaired st.os) st.coll st'.coll ∧ ∀ d ∈ st'.coll, st'.os.alive d.pid = true

/-- **A pass that runs alone repairs the store exactly if the sids of the records to repair come back.** -/
theorem pass_repairs_iff {env : Env} {st : Store} (hsids : (st.coll.map (·.sid)).Nodup) :
    ((∃ xs r, exec (answer env.shown) succeedsFresh xs (processAliveDetect env) st = some r) ∧
      ∀ xs rtn st', exec (answer env.shown) succeedsFresh xs (processAliveDetect env) st = some (rtn, st') →
        PassRepairs env st st') ↔
      ∀ d ∈ st.coll, st.os.alive d.pid = false → env.KeepsSid d.sid := by
  have hread : ∀ {xs r}, exec (answer env.shown) succeedsFresh xs (processAliveDetect env) st = some r →
      ∃ xs', exec (answer env.shown) succeedsFresh xs'
        ((Ctl.detectNext (st.coll.map (Doc.seen env.shown))).code env) st = some r := by
    intro xs r h
    replace h : exec (answer env.shown) succeedsFresh xs (Ctl.detectFind.code env) st = some r := h
    obtain ⟨op, ch, xs, c, st₁, rfl, -, hok, hacts, h⟩ := exec_step h nofun
    have hfind := hacts.cstep trivial (by rintro rfl; cases hok)
    cases hfind with
    | snapshot => exact ⟨xs, h⟩
  constructor
  · rintro ⟨⟨xs, ⟨rtn, st'⟩, h⟩, hrepairs⟩
    obtain ⟨xs', h'⟩ := hread h
    exact kept_of_alive hsids h' (hrepairs xs rtn st' h).2.2
  · refine fun hkeep => ⟨exists_pass env st, fun xs rtn st' h => ?_⟩
    obtain ⟨xs', h'⟩ := hread h
    have hrepairs : Repairs env [] st.coll st st' := repairs_detectNext rfl hsids hkeep (by simp) h'
    obtain ⟨rest', hcoll, hrep, halive⟩ := hrepairs.coll
    obtain rfl : st'.coll = rest' := hcoll
    exact ⟨hrepairs.procs, hrep, halive⟩

end

/-- Two records with one pid, which is dead, and one whose process is alive. -/
def sharedPid : Store where
  coll := [sampleDoc [1] 10, sampleDoc [2] 10, sampleDoc [3] 7]
  os := ⟨[⟨7, some (sampleInfo [3])⟩], [7, 10]⟩

theorem pass_repairs_iff_shared :
    ((∃ xs r, exec (answer libShown) succeedsFresh xs (processAliveDetect sampleEnv) sharedPid = some r) ∧
      ∀ xs rtn st', exec (answer libShown) succeedsFresh xs (processAliveDetect sampleEnv) sharedPid = some (rtn, st') →
        PassRepairs sampleEnv sharedPid st') ↔
      ∀ d ∈ sharedPid.coll, sharedPid.os.alive d.pid = false → sampleEnv.KeepsSid d.sid :=
  @pass_repairs_iff sampleEnv sharedPid (by decide)

/-- A record whose sid comes back as another one. -/
def controlSid : Store := ⟨[sampleDoc [31] 10], ⟨[], [10]⟩⟩

theorem pass_misses_record :
    ¬ ∀ (env : Env) (st : Store), (st.coll.map (·.sid)).Nodup → ∀ xs rtn st',
      exec (answer env.shown) succeedsFresh xs (processAliveDetect env) st = some (rtn, st') →
        PassRepairs env st st' := by
  intro h
  have hrepairs := h sampleEnv controlSid (by decide) [.ok, .ok, .ok, .pid 11, .ok] 0
    ⟨[sampleDoc [31] 10], ⟨[⟨11, some (sampleDoc [49] 10)⟩], [10, 11]⟩⟩ rfl
  exact absurd (hrepairs.2.2 _ List.mem_cons_self) (by decide)

end PullStream
