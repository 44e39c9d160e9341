import PullStream.App.Cluster
import PullStream.Control.Conf
/-!
# Clusters over control points

A cluster whose hosts represent threads by control points takes the same steps as the service
(`clusterStep_map`), so its runs are the images of runs over control points (`runs_cluster_points`). A step
of one host moves its configuration as `Moves` says; the other hosts see the new collection and keep all
else (`Cluster.conf_set_ne`).
-/

namespace PullStream

open Function Transition

variable {ι T T' : Type}

namespace Cluster

/-- The pids of the processes that are alive on host `i` and were forked there for the stream. -/
def live (c : Cluster ι T) (i : ι) (k : Str) : List Int := (c.host i).os.live k

def map (f : ι → T → T') (c : Cluster ι T) : Cluster ι T' :=
  ⟨c.coll, fun i => ((c.sys i).map (f i)).toHost⟩

section

variable (f : ι → T → T') (c : Cluster ι T) (i : ι)

@[simp] theorem map_coll : (c.map f).coll = c.coll := rfl
@[simp] theorem map_sys : (c.map f).sys i = (c.sys i).map (f i) := rfl

@[simp] theorem map_os : ((c.map f).host i).os = (c.host i).os := rfl
@[simp] theorem map_accepted : ((c.map f).host i).accepted = (c.host i).accepted := rfl

@[simp] theorem map_boot (n : ι → Int) (coll : List Doc) (os : ι → Os) :
    (boot n coll os : Cluster ι T).map f = boot n coll os := by
  have hsys : ∀ i, ((boot n coll os : Cluster ι T).sys i).map (f i) = Sys.boot (n i) coll (os i) :=
    fun i => Sys.map_boot (f i) (n i) coll (os i)
  simp only [map, hsys]
  rfl

end

variable [DecidableEq ι]

theorem map_set (f : ι → T → T') (c : Cluster ι T) (i : ι) (s : Sys T) :
    (c.map f).set i (s.map (f i)) = (c.set i s).map f := by
  refine congrArg (Cluster.mk s.coll) (funext fun j => ?_)
  by_cases hj : j = i
  · subst hj
    simp [set, sys, Sys.map]
  · simp [set, sys, map, Sys.map, hj]

@[simp] theorem sys_set_self (c : Cluster ι T) (i : ι) (s : Sys T) : (c.set i s).sys i = s := by
  simp [sys, set]

theorem sys_set_ne (c : Cluster ι T) {i j : ι} (h : j ≠ i) (s : Sys T) :
    (c.set i s).sys j = { c.sys j with coll := s.coll } := by
  simp [sys, set, h]

@[simp] theorem host_set_self (c : Cluster ι T) (i : ι) (s : Sys T) : (c.set i s).host i = s.toHost := by
  simp [set]

@[simp] theorem live_set_self (c : Cluster ι T) (i : ι) (s : Sys T) (k : Str) :
    (c.set i s).live i k = s.os.live k := by
  simp [live, set]

theorem live_set_ne (c : Cluster ι T) {i j : ι} (h : j ≠ i) (s : Sys T) (k : Str) :
    (c.set i s).live j k = c.live j k := by
  simp [live, set, h]

end Cluster

section

variable [DecidableEq ι]

theorem clusterStep_map {I : ι → Threads T} {I' : ι → Threads T'} {f : ι → T → T'}
    (h : ∀ i, (I i).Hom (I' i) (f i)) (l : ι × Label) (c : Cluster ι T) :
    clusterStep I' l (c.map f) = (clusterStep I l c).map (Cluster.map f) := by
  simp only [clusterStep, Cluster.map_sys, step_map (h l.1), Option.map_map]
  refine congrFun (congrArg Option.map (funext fun s => ?_)) _
  exact Cluster.map_set f c l.1 s

theorem clusterStep_some {I : ι → Threads T} {l : ι × Label} {c c' : Cluster ι T}
    (h : clusterStep I l c = some c') : ∃ s, step (I l.1) l.2 (c.sys l.1) = some s ∧ c' = c.set l.1 s := by
  obtain ⟨s, hs, rfl⟩ := Option.map_eq_some_iff.mp h
  exact ⟨s, hs, rfl⟩

/-- **Every run of a cluster is the image of a run over control points.** -/
theorem runs_cluster_points {env : ι → Env} {ok : Cluster ι (Act Int) → ι × Label → Prop}
    {a : Cluster ι Ctl} {ls : List (ι × Label)} {u : Cluster ι (Act Int)}
    (h : Runs (clusterStep fun i => service (env i)) ok (a.map fun i => Ctl.code (env i)) ls u) :
    ∃ b : Cluster ι Ctl, (b.map fun i => Ctl.code (env i)) = u ∧
      Runs (clusterStep fun i => points (env i)) (fun t l => ok (t.map fun i => Ctl.code (env i)) l) a ls b :=
  h.lift _ (clusterStep_map fun i => points_hom (env i))

end

/-! ### The configurations of the hosts -/

/-- The configuration of host `i`. -/
def Cluster.conf (c : Cluster ι Ctl) (i : ι) : Conf := (c.sys i).conf

namespace Cluster

variable (c : Cluster ι Ctl) (i : ι)

variable [DecidableEq ι]

@[simp] theorem conf_set_self (s : Sys Ctl) : (c.set i s).conf i = s.conf := by
  rw [conf, sys_set_self]

variable {c i} in
theorem conf_set_ne {j : ι} (h : j ≠ i) (s : Sys Ctl) :
    (c.set i s).conf j = { c.conf j with store := ⟨s.coll, (c.conf j).store.os⟩ } := by
  rw [conf, sys_set_ne c h]
  rfl

end Cluster

end PullStream
