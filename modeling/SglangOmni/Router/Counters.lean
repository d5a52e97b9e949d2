import SglangOmni.Lib.History
import SglangOmni.Router.Ledger
import Mathlib.Algebra.Order.BigOperators.Group.Finset

/-! The counters of a data plane, and how they reach the ledger of the control plane.

A data plane counts on the worker objects of its view. A snapshot may replace or delete an object while requests run on
it; the object then retires, is reported as long as it has to be, and is let go once the control plane has taken a
report that was built when nothing ran on it any more. Reports may be lost, late or doubled, and so may the answers to
them. -/
namespace SglangOmni.Router.Counting
open Lib

/-! ### Worker objects -/

structure WorkerObject where
  url : String
  incarnation : Incarnation
  active : Nat := 0
  counts : Counts := fun _ => 0

def increment (counts : Counts) (c : Counter) : Counts := Function.update counts c (counts c + 1)

/-- `record_routed_request`. -/
def recordRoutedRequest (counts : Counts) (statusCode : Option Nat) (serviceClass : ServiceClass) : Counts :=
  let routed := increment (increment counts (.total .routed)) (.byClass .routed serviceClass)
  if statusCode.any fun code => 200 ≤ code ∧ code < 400 then
    increment (increment routed (.total .successful)) (.byClass .successful serviceClass)
  else increment (increment routed (.total .failed)) (.byClass .failed serviceClass)

structure SnapshotEntry where
  url : String
  incarnation : Option Nat
  deriving DecidableEq

/-- `DataPlaneWorkerView`, with the objects it has made. -/
structure View where
  objects : Nat → WorkerObject := fun _ => { url := "", incarnation := .own 0 }
  created : Nat := 0
  workers : Dict String Nat := ∅
  retiring : List Nat := []

namespace View

/-- `_retire` keeps it. -/
def keeps (v : View) (o : Nat) : Bool := 0 < (v.objects o).active || 0 < (v.objects o).counts (.total .routed)

/-- `_retire`. -/
def retire (v : View) (o : Nat) : View := if v.keeps o then { v with retiring := v.retiring ++ [o] } else v

/-- The incarnation of a new object. -/
def incarnationFor (v : View) (entry : SnapshotEntry) : Incarnation :=
  match entry.incarnation with
  | some n => .registered n
  | none => .own v.created

/-- `self._workers[entry.url] = Worker(config)`. -/
def create (v : View) (entry : SnapshotEntry) : View :=
  { v with
    objects := Function.update v.objects v.created { url := entry.url, incarnation := v.incarnationFor entry }
    created := v.created + 1
    workers := v.workers.set entry.url v.created }

/-- `incarnation_changed`. -/
def incarnationChanged (v : View) (entry : SnapshotEntry) (o : Nat) : Bool :=
  entry.incarnation.any fun n => (v.objects o).incarnation ≠ .registered n

def applyEntry (v : View) (entry : SnapshotEntry) : View :=
  match v.workers.get? entry.url with
  | none => v.create entry
  | some o => if v.incarnationChanged entry o then (v.retire o).create entry else v

/-- `self._retire(self._workers.pop(url))`. -/
def remove (v : View) (url : String) : View :=
  match v.workers.get? url with
  | none => v
  | some o => { v with workers := v.workers.pop url }.retire o

/-- `apply`. -/
def apply (v : View) (entries : List SnapshotEntry) : View :=
  let updated := entries.foldl applyEntry v
  (updated.workers.keys.filter fun url => entries.all (·.url ≠ url)).foldl remove updated

/-- `reportable_workers`. -/
def reportable (v : View) : List Nat := v.workers.entries.map Prod.snd ++ v.retiring

/-- `drained_retired`. -/
def drainedRetired (v : View) : List Nat := v.retiring.filter fun o => (v.objects o).active = 0

/-- `release_retired`. -/
def releaseRetired (v : View) (reported : List Nat) : View :=
  { v with retiring := v.retiring.filter fun o => o ∉ reported }

def setObject (v : View) (o : Nat) (w : WorkerObject) : View := { v with objects := Function.update v.objects o w }

/-- A request is routed to the worker of a URL. -/
def begin (v : View) (url : String) : View :=
  match v.workers.get? url with
  | none => v
  | some o => v.setObject o { v.objects o with active := (v.objects o).active + 1 }

/-- A request is over, and counted. -/
def complete (v : View) (o : Nat) (statusCode : Option Nat) (serviceClass : ServiceClass) : View :=
  if (v.objects o).active = 0 then v
  else
    v.setObject o
      { v.objects o with
        active := (v.objects o).active - 1
        counts := recordRoutedRequest (v.objects o).counts statusCode serviceClass }

/-- A request is over that never reached the worker, or was given up before an answer. -/
def abandon (v : View) (o : Nat) : View :=
  if (v.objects o).active = 0 then v
  else v.setObject o { v.objects o with active := (v.objects o).active - 1 }

def itemOf (v : View) (o : Nat) : WorkerCounters :=
  ⟨(v.objects o).url, (v.objects o).incarnation, (v.objects o).counts, (v.objects o).active⟩

/-- What the data plane has recorded for a worker id, on all the objects it ever had for it. -/
def recorded (v : View) (id : String) (c : Counter) : Nat :=
  ∑ o ∈ Finset.range v.created, if (v.objects o).url = id then (v.objects o).counts c else 0

end View

/-! ### Both planes -/

/-- A report, as the view was when it was built. -/
structure Flush where
  counterSeq : Nat
  view : View

def Flush.report (f : Flush) (dpIndex generation : Nat) : CounterReport :=
  ⟨dpIndex, generation, f.counterSeq, f.view.reportable.map f.view.itemOf⟩

structure State where
  /-- The workers of the control plane: the incarnation of each, and how many were drawn. -/
  registry : Dict String Nat := ∅
  drawn : Nat := 0
  /-- The snapshot file. -/
  file : Option (Dict String Nat) := none
  view : View := {}
  counterSeq : Nat := 0
  /-- The reports that were posted to this control plane, and those it took. -/
  flushes : List Flush := []
  accepted : List Flush := []
  ledger : Ledger
  /-- History: the ledger before it took a report of this data plane. -/
  origin : Ledger
  /-- History: the view that the ledger counts from, once it has taken a report. -/
  base : Option View := none
  /-- History: the control plane is not the first one that the data plane has reported to. -/
  restarted : Bool := false

inductive Event where
  | register (url : String)
  | delete (url : String)
  | publish
  | refresh
  | begin (url : String)
  | complete (o : Nat) (statusCode : Option Nat) (serviceClass : ServiceClass)
  | abandon (o : Nat)
  | flush
  /-- A report arrives, in any order and any number of times. -/
  | deliver (k : Nat)
  /-- The answer to a report that was taken arrives, in any order and any number of times. -/
  | acknowledge (k : Nat)
  | restart

namespace State

def snapshotEntries (registry : Dict String Nat) : List SnapshotEntry :=
  registry.entries.map fun e => ⟨e.1, some e.2⟩

/-- Where the ledger counts from when it takes a first report. -/
def baseFor (s : State) (dpIndex generation : Nat) (f : Flush) : View :=
  if s.ledger.firstContact (f.report dpIndex generation) then f.view else {}

def step (dpIndex generation : Nat) (s : State) : Event → State
  | .register url =>
    if s.registry.contains url then s
    else { s with registry := s.registry.set url s.drawn, drawn := s.drawn + 1 }
  | .delete url => { s with registry := s.registry.pop url }
  | .publish => { s with file := some s.registry }
  | .refresh =>
    match s.file with
    | none => s
    | some registry => { s with view := s.view.apply (snapshotEntries registry) }
  | .begin url => { s with view := s.view.begin url }
  | .complete o statusCode serviceClass => { s with view := s.view.complete o statusCode serviceClass }
  | .abandon o => { s with view := s.view.abandon o }
  | .flush =>
    { s with counterSeq := s.counterSeq + 1, flushes := s.flushes ++ [⟨s.counterSeq + 1, s.view⟩] }
  | .deliver k =>
    match s.flushes[k]? with
    | none => s
    | some f =>
      match s.ledger.apply (f.report dpIndex generation) with
      | some (ledger, true) =>
        { s with
          ledger
          accepted := s.accepted ++ [f]
          base := some (s.base.getD (s.baseFor dpIndex generation f)) }
      | _ => s
  | .acknowledge k =>
    match s.accepted[k]? with
    | none => s
    | some f => { s with view := s.view.releaseRetired f.view.drainedRetired }
  | .restart =>
    -- The new control plane has the workers of the file, and no reports.
    { s with
      registry := s.file.getD ∅, ledger := {}, origin := {}, base := none, flushes := [], accepted := [],
      restarted := true }

end State

end SglangOmni.Router.Counting
