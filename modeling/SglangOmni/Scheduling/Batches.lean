import Mathlib.Data.List.Basic

/-! Requests and the batches that list them.

A `Req` and a `ScheduleBatch` are objects, shared by whoever holds them: both are known by a
number. The scheduler holds four batches, which may be the same object: the running one,
the one of this iteration, the one of the last, and the snapshot of the decode step that
is launched and not resolved. -/
namespace SglangOmni.Scheduling

/-- What `finished_reason` says: `FINISH_ABORT`, or an end of the request's own. -/
inductive Finish where
  | abort
  | done
  deriving DecidableEq

structure Req where
  rid : String
  finishedReason : Option Finish := none
  toFinish : Bool := false
  isRetracted : Bool := false
  omniTerminalClaimed : Bool := false
  omniData : Option Nat := none
  deriving DecidableEq

def Req.finished (q : Req) : Bool := q.finishedReason.isSome

/-- `_async_pending`: the snapshot, and the requests of the launched `SchedulerOutput`. -/
structure Pending where
  batch : Nat
  rows : List Nat
  deriving DecidableEq

structure Batches where
  req : Nat → Req
  reqs : Nat → List Nat
  runningBatch : Nat
  curBatch : Option Nat
  lastBatch : Option Nat
  asyncPending : Option Pending

inductive Slot where
  | running
  | cur
  | last
  | pending
  deriving DecidableEq

def Slot.all : List Slot := [.running, .cur, .last, .pending]

namespace Batches

/-- The batch object in a slot. -/
def slot (s : Batches) : Slot → Option Nat
  | .running => some s.runningBatch
  | .cur => s.curBatch
  | .last => s.lastBatch
  | .pending => s.asyncPending.map (·.batch)

/-- The requests that the four batches list, in the order in which they are looked through. -/
def listed (s : Batches) : List Nat := (Slot.all.filterMap s.slot).flatMap s.reqs

def setReq (s : Batches) (q : Nat) (f : Req → Req) : Batches :=
  { s with req := Function.update s.req q (f (s.req q)) }

/-- `_detach_request_data`. -/
def detachRequestData (s : Batches) (q : Nat) : Batches := s.setReq q fun q => { q with omniData := none }

/-- One request of `_mark_running_request_aborted`. -/
def markOne (r : String) (acc : Batches × Bool) (q : Nat) : Batches × Bool :=
  let req := acc.1.req q
  if req.rid ≠ r then acc
  else if req.omniTerminalClaimed then (acc.1, acc.2 || req.omniData.isSome)
  else if req.finished || req.isRetracted then acc
  else (acc.1.setReq q fun q => { q with toFinish := true }, true)

/-- `_mark_running_request_aborted`; a batch in two slots is looked through again, which
changes nothing. -/
def markRunningRequestAborted (s : Batches) (r : String) : Batches × Bool :=
  s.listed.foldl (markOne r) (s, false)

/-- What `_remove_from_batch` leaves in a batch, and the requests whose data it detaches. -/
def remaining (s : Batches) (r : String) (reqs : List Nat) : List Nat :=
  reqs.filter fun q => (s.req q).rid ≠ r

def detachAll (s : Batches) (r : String) (reqs : List Nat) : Batches :=
  { s with req := fun q =>
      if q ∈ reqs ∧ (s.req q).rid = r then { s.req q with omniData := none } else s.req q }

/-- `_remove_from_batch`. -/
def removeFromBatch (s : Batches) (r : String) (batch : Option Nat) : Batches :=
  match batch with
  | none => s
  | some b => { s.detachAll r (s.reqs b) with reqs := Function.update s.reqs b (s.remaining r (s.reqs b)) }

end Batches

end SglangOmni.Scheduling
