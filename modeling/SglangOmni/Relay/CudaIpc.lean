import SglangOmni.Relay.SlotAllocator

/-! The sending side of the CUDA IPC relay.

`put_async` takes slots from the allocator, copies into them and returns an operation that
gives them back when the receiver has acknowledged. `_acquire_slots` races the allocator's
`acquire_async`, in a task of its own, against the relay's failure; between the end of that
task and the turn of the call that awaits it anything may happen. The code between two
suspensions is one step; a cancellation is the step in which the exception reaches the
suspended coroutine. An operation is waited for by one task at a time, the watcher of its
transfer.

What an operation has released and what it was told is kept for the proofs. -/
namespace SglangOmni.Relay.CudaIpc
open Lib
open SlotAllocator (Geometry Allocation)

/-! ### State -/

/-- The task of `acquire_async`, with the offset it returns. -/
inductive Acquire where
  | created
  | waiting
  | done (offset : Nat)
  deriving DecidableEq

/-- The future of a receiver's acknowledgement. -/
inductive Receiver where
  | pending
  | done
  | failed
  | cancelled
  deriving DecidableEq

/-- `CudaIpcPutOperation`; `releases` counts its calls of `release`, and `refused` says that
the receiver failed or that a wait timed out. -/
structure PutOperation where
  offset : Nat
  receiver : Receiver := .pending
  waiting : Bool := false
  completed : Bool := false
  releases : Nat := 0
  refused : Bool := false
  deriving DecidableEq

/-- A call of `put_async`: in the race of `_acquire_slots`, ended by an exception, or returned. -/
inductive Phase where
  | racing (acquire : Acquire) (failed : Bool)
  | raised
  | returned (op : PutOperation)
  deriving DecidableEq

structure Call where
  numSlots : Nat
  captureLayout : Bool
  phase : Phase
  deriving DecidableEq

/-- A call's acquire task has the call's number in the allocator. -/
structure State (g : Geometry) where
  alloc : SlotAllocator.State g
  failed : Bool
  calls : Nat → Option Call
  nextCall : Nat

def State.create (g : Geometry) : State g := ⟨.create g, false, fun _ => none, 0⟩

variable {g : Geometry}

def State.setPhase (s : State g) (c : Nat) (call : Call) (phase : Phase) : State g :=
  { s with calls := Function.update s.calls c (some { call with phase }) }

/-! ### Acquiring -/

/-- `_slots_for_size`. -/
def slotsForSize (size slotSize : Nat) : Nat := max 1 ((size + slotSize - 1) / slotSize)

/-- `put_async` up to its suspension; `valid` when its other checks pass. -/
def putAsync (s : State g) (size : Nat) (valid captureLayout : Bool) : State g :=
  let numSlots := slotsForSize size g.slotSize
  if s.failed ∨ valid = false ∨ numSlots > g.slotCount then s
  else
    { s with
      calls := Function.update s.calls s.nextCall
        (some { numSlots, captureLayout, phase := .racing .created false })
      nextCall := s.nextCall + 1 }

/-- The end of a pass of the acquire task. -/
def pass (alloc : SlotAllocator.State g) (k : SlotAllocator.Call) : Acquire :=
  match (SlotAllocator.acquirePass alloc.pool k).1 with
  | .inl allocation => .done allocation.offset
  | .inr _ => .waiting

def attempt (s : State g) (c : Nat) (call : Call) (failed : Bool) (k : SlotAllocator.Call) : State g :=
  { s with alloc := SlotAllocator.attempt s.alloc c k }.setPhase c call (.racing (pass s.alloc k) failed)

/-- The task's first turn. The allocator's checks were made by `put_async` already. -/
def acquireStarts (s : State g) (c : Nat) (call : Call) (failed : Bool) : State g :=
  match SlotAllocator.beginAcquire g call.numSlots call.captureLayout with
  | .error _ => s
  | .ok k => attempt s c call failed k

def acquireResumes (s : State g) (c : Nat) (call : Call) (failed : Bool) : State g :=
  match s.alloc.calls.get? c with
  | none => s
  | some k => if c ∈ s.alloc.pool.changed.parked then s else attempt s c call failed k

def release (s : State g) (offset numSlots : Nat) : State g :=
  { s with alloc := SlotAllocator.step s.alloc (.release offset numSlots) }

/-- A task that is not done is cancelled. -/
def cancelAcquire (s : State g) (c : Nat) : State g :=
  { s with alloc := SlotAllocator.step s.alloc (.cancel c) }

/-- The rest of `put_async` once its race is decided; `copyFails` when the copy into the
slots, or the export of the pool, raises. -/
def putResumes (s : State g) (c : Nat) (call : Call) (acquire : Acquire) (failed copyFails : Bool) : State g :=
  match acquire, failed with
  | .done offset, true => (release s offset call.numSlots).setPhase c call .raised
  | .created, true | .waiting, true => (cancelAcquire s c).setPhase c call .raised
  | .done offset, false =>
    if s.failed || copyFails then (release s offset call.numSlots).setPhase c call .raised
    else s.setPhase c call (.returned { offset })
  | .created, false | .waiting, false => s

/-- The `finally` of `_acquire_slots` when a cancellation leaves the race: a task that is
done keeps its result, which nobody takes. -/
def putCancelled (s : State g) (c : Nat) (call : Call) (acquire : Acquire) : State g :=
  match acquire with
  | .done _ => s.setPhase c call .raised
  | .created | .waiting => (cancelAcquire s c).setPhase c call .raised

/-! ### Completion -/

/-- `wait_for` cancels the future it waits for. -/
def Receiver.interrupt : Receiver → Receiver
  | .pending => .cancelled
  | receiver => receiver

def PutOperation.waitStarts (op : PutOperation) : PutOperation :=
  if op.completed then op else { op with waiting := true }

def PutOperation.markReceiverDone (op : PutOperation) : PutOperation :=
  if op.receiver = .pending then { op with receiver := .done } else op

def PutOperation.markReceiverFailed (op : PutOperation) : PutOperation :=
  if op.receiver = .pending then { op with receiver := .failed, refused := true } else op

/-- A wait that is interrupted by a cancellation; the operation is not completed. -/
def PutOperation.waitCancelled (op : PutOperation) : PutOperation :=
  if op.waiting then { op with waiting := false, receiver := op.receiver.interrupt } else op

/-- `wait_for_completion` when its future is done. -/
def waitResumes (s : State g) (c : Nat) (call : Call) (op : PutOperation) : State g :=
  match op.waiting, op.receiver with
  | false, _ | true, .pending => s
  | true, .done =>
    (release s op.offset call.numSlots).setPhase c call
      (.returned { op with waiting := false, completed := true, releases := op.releases + 1 })
  | true, .failed =>
    { s with failed := true }.setPhase c call (.returned { op with waiting := false, completed := true })
  | true, .cancelled => s.setPhase c call (.returned { op with waiting := false })

def waitTimesOut (s : State g) (c : Nat) (call : Call) (op : PutOperation) : State g :=
  if op.waiting then
    { s with failed := true }.setPhase c call (.returned
      { op with waiting := false, completed := true, refused := true, receiver := op.receiver.interrupt })
  else s

/-! ### Events -/

inductive Event where
  | put (size : Nat) (valid captureLayout : Bool)
  | acquireStarts (c : Nat)
  | acquireResumes (c : Nat)
  | failTaskEnds (c : Nat)
  | putResumes (c : Nat) (copyFails : Bool)
  | putCancelled (c : Nat)
  | markFailed
  | waitStarts (c : Nat)
  | markReceiverDone (c : Nat)
  | markReceiverFailed (c : Nat)
  | waitResumes (c : Nat)
  | waitTimesOut (c : Nat)
  | waitCancelled (c : Nat)
  deriving DecidableEq

def onRace (s : State g) (c : Nat) (act : Call → Acquire → Bool → State g) : State g :=
  match s.calls c with
  | none => s
  | some call =>
    match call.phase with
    | .racing acquire failed => act call acquire failed
    | .raised | .returned _ => s

def onOperation (s : State g) (c : Nat) (act : Call → PutOperation → State g) : State g :=
  match s.calls c with
  | none => s
  | some call =>
    match call.phase with
    | .returned op => act call op
    | .racing .. | .raised => s

/-- The relay's step; an event that cannot happen leaves the state as it is. -/
def step (s : State g) : Event → State g
  | .put size valid captureLayout => putAsync s size valid captureLayout
  | .acquireStarts c =>
    onRace s c fun call acquire failed => if acquire = .created then acquireStarts s c call failed else s
  | .acquireResumes c =>
    onRace s c fun call acquire failed => if acquire = .waiting then acquireResumes s c call failed else s
  | .failTaskEnds c =>
    onRace s c fun call acquire _ => if s.failed then s.setPhase c call (.racing acquire true) else s
  | .putResumes c copyFails =>
    onRace s c fun call acquire failed => putResumes s c call acquire failed copyFails
  | .putCancelled c => onRace s c fun call acquire _ => putCancelled s c call acquire
  | .markFailed => { s with failed := true }
  | .waitStarts c => onOperation s c fun call op => s.setPhase c call (.returned op.waitStarts)
  | .markReceiverDone c => onOperation s c fun call op => s.setPhase c call (.returned op.markReceiverDone)
  | .markReceiverFailed c =>
    onOperation s c fun call op => s.setPhase c call (.returned op.markReceiverFailed)
  | .waitResumes c => onOperation s c (waitResumes s c)
  | .waitTimesOut c => onOperation s c (waitTimesOut s c)
  | .waitCancelled c => onOperation s c fun call op => s.setPhase c call (.returned op.waitCancelled)

end SglangOmni.Relay.CudaIpc
