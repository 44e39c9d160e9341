import PullStream.App.ServerBiz
import Mathlib.Logic.Function.Basic
/-!
# Hosts whose service is restarted

A service instance ends at any moment, in the middle of whatever its threads are doing, and another one is
started on the host, with another pid. What it finds is the collection and the processes of the host, of
which some were forked by the instances before it: these go on when their parent is gone.

A `Fleet` is a number of hosts over one collection, with the instance that runs on each of them.
`fleetStep` lets an instance take a step, or replaces it. Trace variables record which event a record was
inserted for (`request`), who forked the process that it names (`forker`), and all forks (`forks`); the steps
do not depend on them.
-/

namespace PullStream

open Function

/-- The `number`th instance of the service on a host. -/
structure Instance (ι : Type) where
  host : ι
  number : Nat
  pid : Int
  deriving DecidableEq, Repr

/-- A record, with the event that the worker which inserted it was busy with, and the instance that wrote its
pid, which is that of a process it had forked. -/
structure Tracked (ι : Type) where
  doc : Doc
  request : Option Event
  forker : Instance ι
  deriving DecidableEq

structure Fleet (ι : Type) where
  coll : List (Tracked ι)
  host : ι → Host (Act Int)
  env : ι → Env
  number : ι → Nat
  forks : List (Instance ι × Int)

inductive FleetLabel (ι : Type) where
  | act (i : ι) (l : Label)
  /-- The instance of the host has ended, and another one is started. -/
  | restart (i : ι) (env : Env) (workerNum : Int)

section

variable {ι : Type}

/-- What a driver call does to the collection when the instance `q` makes it, busy with `request`. -/
def Instance.write (q : Instance ι) (request : Option Event) : Call → List (Tracked ι) → List (Tracked ι)
  | .insert d, coll => coll ++ [⟨d, request, q⟩]
  | .update query p, coll =>
    Keyed.modifyFirst (fun r => query.matches r.doc)
      (fun r => { r with doc := { r.doc with pid := p }, forker := q }) coll
  | .remove query, coll => coll.eraseP fun r => query.matches r.doc
  | _, coll => coll

namespace Fleet

/-- The instances start on a collection, each host with a process table of its own. -/
def boot (env : ι → Env) (workerNum : ι → Int) (os : ι → Os) (coll : List (Tracked ι))
    (forks : List (Instance ι × Int)) : Fleet ι where
  coll := coll
  host i := (Sys.boot (workerNum i) [] (os i)).toHost
  env := env
  number _ := 0
  forks := forks

/-- What the instance on host `i` works on. -/
def sys (f : Fleet ι) (i : ι) : Sys (Act Int) := { f.host i with coll := f.coll.map (·.doc) }

/-- The instance that runs on host `i`. -/
def current (f : Fleet ι) (i : ι) : Instance ι := ⟨i, f.number i, (f.env i).pid⟩

/-- The call that a label makes on host `i`: the event that its thread is busy with, the call, and what it
comes to. -/
def made (f : Fleet ι) (i : ι) : Label → Option (Option Event × Call × Choice)
  | .call τ ch =>
    ((f.sys i).next (service (f.env i)) τ).map fun c => ((f.sys i).taken τ, c, ch)
  | _ => none

def written (f : Fleet ι) (i : ι) (l : Label) : List (Tracked ι) :=
  match f.made i l with
  | some (request, c, .ok) => (f.current i).write request c f.coll
  | _ => f.coll

def forked (f : Fleet ι) (i : ι) (l : Label) : List (Instance ι × Int) :=
  match f.made i l with
  | some (_, .fork _, .pid p) => [(f.current i, p)]
  | _ => []

end Fleet

variable [DecidableEq ι]

def fleetStep (l : FleetLabel ι) (f : Fleet ι) : Option (Fleet ι) :=
  match l with
  | .act i l =>
    (step (service (f.env i)) l (f.sys i)).map fun s =>
      { f with
        coll := f.written i l
        host := update f.host i s.toHost
        forks := f.forks ++ f.forked i l }
  | .restart i env workerNum =>
    some { f with
      host := update f.host i (Sys.boot workerNum [] (f.host i).os).toHost
      env := update f.env i env
      number := update f.number i (f.number i + 1) }

end

end PullStream
