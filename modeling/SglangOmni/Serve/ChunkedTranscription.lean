import Mathlib.Data.List.Sort
import SglangOmni.Lib.History
import SglangOmni.Lib.Semaphore

/-! The chunks of a long upload, transcribed one request each.

The chunks run as tasks under a semaphore, or one after the other when each is conditioned on the text before. When one
of them fails, or the call is cancelled, the handler cancels the tasks, waits for them, and aborts the requests that
were in flight. A task that was told to stop is thrown a `CancelledError` where it waits; its request goes on in the
engine. A request is known by the index of its span, and whether it is the retry. -/
namespace SglangOmni.Serve.ChunkedTranscription
open Lib

structure Config where
  /-- `has_speech`, of each span of the plan. -/
  spans : List Bool
  maxConcurrent : Nat
  /-- How the texts of two request ids compare, which is how `sorted` puts them. -/
  idLe : Nat → Nat → Bool

/-- The task of a chunk. -/
inductive Child where
  | created
  /-- In the queue of the semaphore. -/
  | waiting
  | encoding
  /-- In `client.completion`. -/
  | completing
  | returned (text : String)
  | failed
  /-- Cancelled before its completion was started. -/
  | cancelled
  /-- Cancelled in `client.completion`. -/
  | abandoned
  deriving DecidableEq

namespace Child

def ended : Child → Bool
  | .returned _ | .failed | .cancelled | .abandoned => true
  | _ => false

def isReturned : Child → Bool
  | .returned _ => true
  | _ => false

def text : Child → String
  | .returned text => text
  | _ => ""

/-- The completion was started, and has neither returned nor raised an error of its own. -/
def owing : Child → Bool
  | .completing | .abandoned => true
  | _ => false

/-- Holds a permit of the semaphore. -/
def holds : Child → Bool
  | .encoding | .completing => true
  | _ => false

end Child

/-- Where the call is. -/
inductive Call where
  | gathering
  /-- The handler waits for the tasks, with the ids it has read; a cancellation may have come meanwhile. -/
  | cleaning (pending : List Nat) (interrupted : Bool)
  /-- The handler waits for an abort, with the ids that are left. -/
  | aborting (pending : List Nat)
  | returned (texts : List String)
  | raised
  deriving DecidableEq

def Call.finished : Call → Bool
  | .returned _ | .raised => true
  | _ => false

structure State where
  children : List Child
  sem : Semaphore
  inFlight : List Nat := []
  /-- `task.cancel()` was called for the tasks. -/
  cancelling : Bool := false
  /-- The cancellation of the call has come. -/
  cancelArrived : Bool := false
  call : Call := .gathering
  /-- The ids for which `client.abort` was called. -/
  aborted : List Nat := []
  deriving DecidableEq

inductive Event where
  /-- The first turn of a task. -/
  | run (i : Nat)
  /-- The turn of a task that was handed a permit. -/
  | resume (i : Nat)
  | encoded (i : Nat)
  | encodeFails (i : Nat)
  | completes (i : Nat) (text : String)
  | fails (i : Nat)
  /-- `CancelledError` is thrown into a task. -/
  | thrown (i : Nat)
  /-- `gather` is done, and the call goes on. -/
  | wake
  /-- The tasks have ended, and the handler goes on. -/
  | gathered
  /-- An abort has returned, or has failed. -/
  | abortReturns
  /-- The call is cancelled. -/
  | cancel

/-- The task whose turn it is. -/
def Event.task : Event → Option Nat
  | .run i | .resume i | .encoded i | .encodeFails i | .completes i _ | .fails i | .thrown i => some i
  | _ => none

namespace State
variable (cfg : Config)

def create : State where
  children := cfg.spans.map fun _ => .created
  sem := .create cfg.maxConcurrent
  call := if cfg.spans.isEmpty then .returned [] else .gathering

def become (s : State) (i : Nat) (c : Child) : State := { s with children := s.children.set i c }

/-- `in_flight.discard`. -/
def discard (s : State) (i : Nat) : State := { s with inFlight := s.inFlight.filter (· ≠ i) }

def release (s : State) : State := { s with sem := s.sem.release }

/-- `task.cancel()` for every task. -/
def cancelTasks (s : State) : State := { s with cancelling := true, sem := s.sem.disband }

/-- `gather` is done at the first task that raises, or when all have ended. -/
def gatherDone (s : State) : Bool := s.children.any (fun c => c.ended && !c.isReturned) || s.children.all Child.ended

/-- The loop of the handler over the ids to abort. -/
def nextAbort (s : State) : List Nat → State
  | [] => { s with call := .raised }
  | i :: rest => { s with aborted := s.aborted ++ [i], call := .aborting rest }

/-- The steps of `run_chunk`. -/
def stepChild (s : State) (i : Nat) (c : Child) : Event → State
  | .run _ =>
    match c, s.cancelling with
    | .created, false =>
      if cfg.spans[i]? = some false then s.become i (.returned "")
      else
        let (sem, taken) := s.sem.acquire i
        { s with sem }.become i (if taken then .encoding else .waiting)
    | _, _ => s
  | .resume _ =>
    match c, s.cancelling with
    | .waiting, false => if s.sem.handed i then { s with sem := s.sem.resume i }.become i .encoding else s
    | _, _ => s
  | .encoded _ =>
    match c, s.cancelling with
    | .encoding, false => { s with inFlight := s.inFlight ++ [i] }.become i .completing
    | _, _ => s
  | .encodeFails _ =>
    match c, s.cancelling with
    | .encoding, false => s.release.become i .failed
    | _, _ => s
  | .completes _ text =>
    match c with
    | .completing => (s.discard i).release.become i (.returned text)
    | _ => s
  | .fails _ =>
    match c with
    | .completing => (s.discard i).release.become i .failed
    | _ => s
  | .thrown _ =>
    match c, s.cancelling with
    | .created, true => s.become i .cancelled
    | .waiting, true => { s with sem := s.sem.withdraw i }.become i .cancelled
    | .encoding, true => s.release.become i .cancelled
    -- the id stays in flight
    | .completing, true => s.release.become i .abandoned
    | _, _ => s
  | _ => s

def step (s : State) : Event → State
  | .wake =>
    match s.call with
    | .gathering =>
      if s.children.all Child.isReturned && !s.cancelArrived then
        { s with call := .returned (s.children.map Child.text) }
      else if s.gatherDone then
        { s.cancelTasks with call := .cleaning (s.inFlight.insertionSort fun a b => cfg.idLe a b = true) false }
      else s
    | _ => s
  | .gathered =>
    match s.call with
    | .cleaning pending interrupted =>
      if s.children.all Child.ended then
        if interrupted then { s with call := .raised } else s.nextAbort pending
      else s
    | _ => s
  | .abortReturns =>
    match s.call with
    | .aborting pending => s.nextAbort pending
    | _ => s
  | .cancel =>
    if s.cancelArrived then s
    else
      match s.call with
      | .gathering => { (if s.gatherDone then s else s.cancelTasks) with cancelArrived := true }
      -- not an `Exception`: it leaves the handler
      | .cleaning pending _ => { s with cancelArrived := true, call := .cleaning pending true }
      | .aborting _ => { s with cancelArrived := true, call := .raised }
      | _ => s
  | e =>
    match e.task with
    | none => s
    | some i =>
      match s.children[i]? with
      | none => s
      | some c => s.stepChild cfg i c e

variable {cfg} in
theorem step_task {s : State} {e : Event} {i : Nat} (hi : e.task = some i) : s.step cfg e =
    match s.children[i]? with
    | none => s
    | some c => s.stepChild cfg i c e := by
  cases e <;> cases hi <;> simp [step, Event.task]

def runs (es : List Event) : State := Lib.run (step cfg) (create cfg) es

end State

/-! ### One after the other -/

/-- A request of the ordered mode: the index of its span, and whether it is the retry. -/
abbrev RequestId := Nat × Bool

/-- Where the call is, in the ordered mode. -/
inductive Phase where
  | encoding (retry : Bool)
  | completing (retry : Bool)
  /-- `should_retry_chunk_without_context` of the text. -/
  | deciding (text : String)
  | aborting (pending : List RequestId)
  | returned
  | raised
  deriving DecidableEq

def Phase.finished : Phase → Bool
  | .returned | .raised => true
  | _ => false

/-- The call in the ordered mode. Nobody else takes the semaphore, so that a chunk does not wait for it. -/
structure Ordered where
  /-- The texts of the spans before the current one, and the spans from that on. -/
  texts : List String := []
  rest : List Bool
  phase : Phase := .returned
  inFlight : List RequestId := []
  cancelArrived : Bool := false
  aborted : List RequestId := []
  /-- What completions returned, and the requests that were cancelled in theirs. -/
  results : List (RequestId × String) := []
  abandoned : List RequestId := []
  deriving DecidableEq

inductive OrderedEvent where
  | encoded
  | encodeFails
  | completes (text : String)
  | fails
  | decided (retry : Bool)
  | decisionFails
  | abortReturns
  | cancel

namespace Ordered

/-- The request of the current span. -/
def current (o : Ordered) (retry : Bool) : RequestId := (o.texts.length, retry)

/-- The loop over the spans, up to the next one with speech. -/
def advance (texts : List String) : List Bool → List String × List Bool
  | false :: rest => advance (texts ++ [""]) rest
  | spans => (texts, spans)

def goOn (o : Ordered) (texts : List String) (spans : List Bool) : Ordered :=
  let (texts, rest) := advance texts spans
  { o with texts, rest, phase := if rest.isEmpty then .returned else .encoding false }

/-- The text of the current span is known. -/
def finish (o : Ordered) (text : String) : Ordered := o.goOn (o.texts ++ [text]) o.rest.tail

def nextAbort (o : Ordered) : List RequestId → Ordered
  | [] => { o with phase := .raised }
  | id :: rest => { o with aborted := o.aborted ++ [id], phase := .aborting rest }

/-- The handler: there are no tasks to wait for, and one request at most to abort. -/
def handle (o : Ordered) : Ordered := o.nextAbort o.inFlight

def discard (o : Ordered) (id : RequestId) : Ordered := { o with inFlight := o.inFlight.filter (· ≠ id) }

def create (cfg : Config) : Ordered := { rest := cfg.spans : Ordered }.goOn [] cfg.spans

def step (o : Ordered) : OrderedEvent → Ordered
  | .encoded =>
    match o.phase with
    | .encoding retry => { o with inFlight := o.inFlight ++ [o.current retry], phase := .completing retry }
    | _ => o
  | .encodeFails =>
    match o.phase with
    | .encoding _ => o.handle
    | _ => o
  | .completes text =>
    match o.phase with
    | .completing retry =>
      let done := { o.discard (o.current retry) with results := o.results ++ [(o.current retry, text)] }
      if retry then done.finish text else { done with phase := .deciding text }
    | _ => o
  | .fails =>
    match o.phase with
    | .completing retry => (o.discard (o.current retry)).handle
    | _ => o
  | .decided retry =>
    match o.phase with
    | .deciding text => if retry then { o with phase := .encoding true } else o.finish text
    | _ => o
  | .decisionFails =>
    match o.phase with
    | .deciding _ => o.handle
    | _ => o
  | .abortReturns =>
    match o.phase with
    | .aborting pending => o.nextAbort pending
    | _ => o
  | .cancel =>
    if o.cancelArrived then o
    else
      match o.phase with
      | .encoding _ | .deciding _ => { o with cancelArrived := true }.handle
      | .completing retry => { o with cancelArrived := true, abandoned := o.abandoned ++ [o.current retry] }.handle
      | .aborting _ => { o with cancelArrived := true, phase := .raised }
      | _ => o

def runs (cfg : Config) (es : List OrderedEvent) : Ordered := Lib.run step (create cfg) es

end Ordered
end SglangOmni.Serve.ChunkedTranscription
