import PullStream.App.ServerBiz
import Mathlib.Logic.Function.Basic
/-!
# Hosts over one collection

Every host of a cluster runs the service for itself: it has its own process table, workers and scheduler.
What the hosts share is the `process` collection. A host is known by the name it was started with, which
goes into the records of its streams; `host_register` turns a host away whose name is already taken.

`clusterStep` lets one host take a step, on its own table and on the collection.
-/

namespace PullStream

open Function

structure Cluster (ι T : Type) where
  coll : List Doc
  host : ι → Host T

section

variable {ι T : Type}

namespace Cluster

/-- The hosts start on one collection, each with a process table of its own. -/
def boot (workerNum : ι → Int) (coll : List Doc) (os : ι → Os) : Cluster ι T :=
  ⟨coll, fun i => (Sys.boot (workerNum i) coll (os i)).toHost⟩

/-- What host `i` works on. -/
def sys (c : Cluster ι T) (i : ι) : Sys T := { c.host i with coll := c.coll }

def set [DecidableEq ι] (c : Cluster ι T) (i : ι) (s : Sys T) : Cluster ι T :=
  ⟨s.coll, update c.host i s.toHost⟩

end Cluster

/-- One step of host `l.1`. -/
def clusterStep [DecidableEq ι] (I : ι → Threads T) (l : ι × Label) (c : Cluster ι T) :
    Option (Cluster ι T) :=
  (step (I l.1) l.2 (c.sys l.1)).map (c.set l.1)

end

end PullStream
