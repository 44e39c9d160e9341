import PullStream.Service.Accounts
import PullStream.Service.FailingPass
import PullStream.Service.Pids
import PullStream.Service.Provenance
import PullStream.Service.StreamId
/-!
# A stream survives the service

The store is all that is left of a service that ends, whatever its threads were doing; its processes may end with it or
later. The records of the store were made by starts that succeeded (`accounted_of_runs`), one for each sid
(`SidInv`), and say what to run (`StreamOf`). A service that comes up on them has lost no stream: when its first pass
of the scheduler is over, every stream that was started and not stopped is run again as it was asked for
(`streams_survive`).
-/

namespace PullStream

open Transition Prog ServerBiz

section

variable {env env' : Env} {W : Nat} {os os' : Os} {ls : List Label} {s : Sys (Act Int)} {coll : List Doc} {k : Str}

/-- What a service leaves in the store that it began with nothing; `env'` are the surroundings of the next one. -/
structure LeftBehind (env' : Env) (P : Event → Prop) (coll : List Doc) : Prop where
  unique : (coll.map (·.sid)).Nodup
  sids : ∀ d ∈ coll, env'.KeepsSid d.sid
  requested : ∀ d ∈ coll, StreamOf P d

theorem nodup_of_uniqueSids (h : UniqueSids coll) : (coll.map (·.sid)).Nodup := by
  rw [List.nodup_iff_count_le_one]
  intro k
  have hcount : (coll.map (·.sid)).count k = (recs k coll).length := by
    rw [List.count, List.countP_map, recs, Keyed.slot, ← List.countP_eq_length_filter]
    exact List.countP_congr fun d _ => by simp
  exact hcount ▸ h k

theorem Moves.sids {v v' : Conf} {l : Label} (hm : Moves env v l v') (hfits : v.Fits env) (hdb : l.dbOk = true)
    (h : ∀ d ∈ v.store.coll, cStr d.sid = d.sid) : ∀ d ∈ v'.store.coll, cStr d.sid = d.sid := by
  cases hm with
  | call ht hc => exact (hfits.cstep ht hdb hc).sids h
  | _ => exact h

theorem records_streamOf {P : Event → Prop} {ev : Event} (h : P ev) : Event.Records env (StreamOf P) ev :=
  fun hty pid => (StreamOf.withPid ⟨ev, h, hty, rfl, rfl, rfl, rfl, rfl⟩ pid).processDoc env

theorem leftBehind_of_runs
    (h : Runs (step (service env)) (fun t l => (l.dbOk = true ∧ t.checksAlone (service env) l = true) ∧
      l.intact env' ["sid"] = true) (.boot W [] os) ls s) : LeftBehind env' (fun ev => .put ev ∈ ls) s.coll := by
  have hrecords : s.Recording env (StreamOf fun ev => .put ev ∈ ls) := by
    refine h.mem_label.inv _ (.boot (List.forall_mem_nil _)) fun t l u ht hl hstep => ?_
    refine ht.move (fun d pid hd => hd.withPid pid) (fun ev he => records_streamOf ?_) hstep
    rw [← he]
    exact hl.2
  have hintact : s.Recording env fun d => d.intact env' ["sid"] = true := by
    refine h.inv _ (.boot (List.forall_mem_nil _)) fun t l u ht hl hstep => ?_
    refine ht.move (fun _ _ => id) (fun ev he => ?_) hstep
    rw [he] at hl
    exact records_of_intact hl.2
  rw [← Sys.map_boot (Ctl.code env)] at h
  obtain ⟨u, rfl, hrun⟩ := runs_points h
  have hsid : SidInv (Sys.boot W [] os : Sys Ctl).conf := ⟨uniqueSids_nil, by simp, by simp⟩
  have hinv : u.conf.Fits env ∧ SidInv u.conf ∧ ∀ d ∈ u.coll, cStr d.sid = d.sid := by
    refine hrun.inv (fun t => t.conf.Fits env ∧ SidInv t.conf ∧ ∀ d ∈ t.coll, cStr d.sid = d.sid)
      ⟨fits_boot .., hsid, List.forall_mem_nil _⟩ fun t l t' ⟨hfits, hinv, hnul⟩ ⟨⟨hdb, hcheck⟩, _⟩ hstep => ?_
    have hm := moves_of_step hstep
    exact ⟨hfits.move hm,
      hinv.move hfits hm hdb fun τ ch p => alone_of_checksAlone hfits (checksAlone_map t l ▸ hcheck),
      hm.sids hfits hdb hnul⟩
  refine ⟨nodup_of_uniqueSids hinv.2.1.unique, fun d hd => ?_, hrecords.coll⟩
  rw [Env.KeepsSid, sid_of_intact (hintact.coll d hd)]
  exact hinv.2.2 d hd

theorem LeftBehind.runs_again {P : Event → Prop} {xs : List Choice} {r : Int × Store} {d : Doc}
    (h : LeftBehind env' P coll)
    (hpass : exec (answer env'.shown) unrecorded xs (processAliveDetect env') ⟨coll, os'⟩ = some r)
    (hxs : ∀ x ∈ xs, x.failed = false) (hd : d ∈ coll) :
    ∃ d' ∈ r.2.coll, (∀ e ∈ r.2.coll, e.sid = d.sid → e = d') ∧ d'.sid = d.sid ∧ r.2.os.alive d'.pid = true ∧
      StreamOf P d' := by
  have hkept := withoutPid_of_exec h.unique h.sids hpass
  obtain ⟨d', hd', hsame⟩ := List.mem_map.mp (hkept ▸ List.mem_map_of_mem (f := withoutPid) hd)
  have heq : d' = { d with pid := d'.pid } := congrArg (fun e : Doc => { e with pid := d'.pid }) hsame
  have hsid : d'.sid = d.sid := by rw [heq]
  have hunique := nodup_of_withoutPid hkept h.unique
  refine ⟨d', hd', fun e he hes => List.inj_on_of_nodup_map hunique he hd' (hes.trans hsid.symm), hsid, ?_, ?_⟩
  · obtain ⟨rfl, -⟩ | ⟨ys, rfl, hp⟩ := passes_of_exec h.unique h.sids hpass
    · exact absurd (hxs .dbFail List.mem_cons_self) Bool.false_ne_true.symm
    · have hfailed : ys.countP Choice.failed = 0 := by
        rw [List.countP_eq_zero]
        exact fun x hx => by simp [hxs x (List.mem_cons_of_mem _ hx)]
      have hgone : r.2.os.gone r.2.coll = 0 := by
        have hcount := hp.gone
        omega
      simpa using List.countP_eq_zero.mp hgone d' hd'
  · rw [heq]
    exact (h.requested d hd).withPid d'.pid

end

/-- One stream has been started, and another is being started when the service ends. -/
def interrupted : List Label :=
  [.put (startEvent [1]), .put (startEvent [2])] ++ startLabels 0 10 ++ (startLabels 1 11).take 3

def nextEnv : Env := { sampleEnv with pid := 2 }

def interruptedEnd : Sys (Act Int) :=
  (check (step (service sampleEnv)) (fun t l => (l.dbOk = true ∧ t.checksAlone (service sampleEnv) l = true) ∧
    l.intact sampleEnv ["sid"] = true ∧ l.intact nextEnv ["sid"] = true) interrupted
    (.boot 2 [] ⟨[], []⟩)).get (by decide)

def comeUp : Int × Store :=
  (exec (answer nextEnv.shown) unrecorded [.ok, .ok, .ok, .pid 20, .ok] (processAliveDetect nextEnv)
    ⟨interruptedEnd.coll, ⟨[], []⟩⟩).get (by decide)

end PullStream
