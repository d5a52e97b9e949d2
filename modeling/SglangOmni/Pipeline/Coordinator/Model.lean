import SglangOmni.Lib.History
import SglangOmni.Pipeline.Replicas
import Mathlib.Data.Finset.Card

/-! The coordinator: admission, completion, abort and the owners of a request.

All of it runs on one event loop, so the code between two suspensions is one step.
`broadcast_abort`, `submit_to_stage`, the completion future and the stream queue
are where it suspends; `put` on an unbounded queue is not. A submit or stream call
is numbered when it is admitted: the number names the incarnation of the request,
the call's future and the call's queue. The incarnation kept in a request record,
an abort task or a suspended handler is for the proofs; the program never reads it.

Answers from outside (the terminal resolver, the binding policy, which suspension
ends next and how) are carried by the events. -/
namespace SglangOmni.Pipeline.Coordinator
open Lib

variable {ρ : Type}

/-! ### Messages, futures and requests -/

inductive RequestState where
  | pending | running | completed | failed | aborted
  deriving DecidableEq

/-- `result` is `none` for `None`. -/
structure CompleteMessage (ρ : Type) where
  requestId : String
  fromStage : String
  success : Bool
  result : Option ρ := none
  error : Option String := none
  deriving DecidableEq

structure StreamMessage (ρ : Type) where
  requestId : String
  fromStage : String
  chunk : ρ
  stageName : Option String := none
  deriving DecidableEq

inductive QueueItem (ρ : Type) where
  | complete (msg : CompleteMessage ρ)
  | stream (msg : StreamMessage ρ)
  deriving DecidableEq

/-- What a future resolves to: one stage's result, or one result per terminal stage. -/
inductive Outcome (ρ : Type) where
  | single (result : Option ρ)
  | merged (results : Dict String (Option ρ))
  deriving DecidableEq

inductive Failure where
  | queueFull
  | runtime (message : String)
  | cancelled (message : String)
  deriving DecidableEq

inductive FutureState (ρ : Type) where
  | pending
  | result (outcome : Outcome ρ)
  | exception (failure : Failure)
  | cancelled
  deriving DecidableEq

def FutureState.done : FutureState ρ → Bool
  | .pending => false
  | _ => true

def queueFullMessage : String := "The request queue is full."

/-- `QueueFullError.from_message`: the text may have the queue-full message anywhere
in it, and an absent or empty text gets the default. -/
def fromMessage (message : Option String) : Failure :=
  match message with
  | none => .runtime "Unknown error"
  | some text =>
    if queueFullMessage.toList <:+: text.toList then .queueFull
    else if text = "" then .runtime "Unknown error"
    else .runtime text

structure RequestInfo (ρ : Type) where
  state : RequestState
  currentStage : Option String
  terminalStages : Option (Finset String)
  error : Option String := none
  incarnation : Nat
  deriving DecidableEq

/-! ### Configuration -/

/-- The terminal resolver's answer for one request. -/
inductive Resolution where
  | unspecified
  | notASequence
  | notNames
  | names (stages : List String)

/-- What the coordinator is built with. Stage names are plain: the pipeline config
rejects a stage that is named like a replica instance. -/
structure Config where
  entryStage : String
  terminalStages : Finset String
  hasResolver : Bool
  topology : ReplicaTopology
  processes : List LogicalProcess
  maxInFlight : Option Nat
  stages : Finset String
  plain : ∀ stage ∈ terminalStages, (parseReplicaInstanceName stage).2 = none

theorem plain_a : ∀ stage ∈ ({"a"} : Finset String), (parseReplicaInstanceName stage).2 = none := by
  decide

inductive SubmitError where
  | fatal (message : String)
  | alreadyExists (requestId : String)
  | queueFull
  | badBinding
  | noEntryBinding (stage : String)
  | entryResolve (error : ReplicaTopology.ResolveError)
  | entryNotRegistered (instance_ : String)
  | resolverNotASequence
  | resolverNotNames
  | resolverNoStages
  | resolverUnknownStages (unknown allowed : Finset String)

def resolveTerminalStages (g : Config) (answer : Resolution) : Except SubmitError (Finset String) :=
  if g.hasResolver = false then .ok g.terminalStages
  else match answer with
    | .unspecified => .ok g.terminalStages
    | .notASequence => .error .resolverNotASequence
    | .notNames => .error .resolverNotNames
    | .names stages =>
      let resolved := stages.toFinset
      if resolved = ∅ then .error .resolverNoStages
      else if resolved \ g.terminalStages ≠ ∅ then
        .error (.resolverUnknownStages (resolved \ g.terminalStages) g.terminalStages)
      else .ok resolved

/-! ### State -/

inductive Kind where
  | submit | stream
  deriving DecidableEq

/-- How the body of a stream was left. -/
inductive Exit where
  | returned
  | raised (failure : Failure)
  | closed
  deriving DecidableEq

/-- Where a call is suspended: in `submit_to_stage`, on its future, on its queue, in
the abort of its cleanup, or not any more. -/
inductive Phase where
  | submitting
  | awaiting (future : Nat)
  | streaming
  | aborting
  | done
  deriving DecidableEq

/-- One admitted submit or stream call. `resolved` is the terminal set of its
admission, for the proofs; `expected` is the one the stream looked up. -/
structure Call where
  requestId : String
  kind : Kind
  resolved : Finset String
  phase : Phase := .submitting
  expected : Finset String := ∅
  completedStages : Finset String := ∅
  taken : Nat := 0
  exit : Option Exit := none
  deriving DecidableEq

structure AbortTask where
  requestId : String
  incarnation : Nat
  finished : Bool := false
  deriving DecidableEq

/-- The completion loop: between messages, suspended in the broadcast of a failure
it is handling, or ended by an exception. -/
inductive Loop (ρ : Type) where
  | idle
  | failing (msg : CompleteMessage ρ) (incarnation : Nat)
  | stopped
  deriving DecidableEq

def Loop.isIdle : Loop ρ → Bool
  | .idle => true
  | _ => false

/-- The tables, and the objects they refer to by number. A queue is the list of all
items ever put; its stream has taken the first few. -/
structure State (ρ : Type) where
  requests : Dict String (RequestInfo ρ)
  completionFutures : Dict String Nat
  streamQueues : Dict String Nat
  abortTasks : Dict String Nat
  partialResults : Dict String (Dict String (Option ρ))
  fatalError : Option String
  futures : Nat → FutureState ρ
  queues : Nat → List (QueueItem ρ)
  calls : Nat → Option Call
  nextCall : Nat
  tasks : Nat → Option AbortTask
  nextTask : Nat
  loop : Loop ρ

def State.create (ρ : Type) : State ρ where
  requests := ∅
  completionFutures := ∅
  streamQueues := ∅
  abortTasks := ∅
  partialResults := ∅
  fatalError := none
  futures := fun _ => .pending
  queues := fun _ => []
  calls := fun _ => none
  nextCall := 0
  tasks := fun _ => none
  nextTask := 0
  loop := .idle

def State.setCall (s : State ρ) (c : Nat) (call : Call) : State ρ :=
  { s with calls := Function.update s.calls c (some call) }

/-! ### Admission -/

def requestIdIsReserved (s : State ρ) (r : String) : Bool :=
  s.requests.contains r || s.completionFutures.contains r || s.streamQueues.contains r ||
    s.abortTasks.contains r

/-- The instance a request enters at. -/
def entryInstance (g : Config) (bindings : Option (Dict String Int)) : Except SubmitError String :=
  if g.topology.isReplicated g.entryStage then
    match (bindings.getD ∅).get? g.entryStage with
    | none => .error (.noEntryBinding g.entryStage)
    | some replica =>
      match g.topology.resolve g.entryStage replica with
      | .ok name => .ok name
      | .error e => .error (.entryResolve e)
  else .ok g.entryStage

/-- The checks of `_submit_request`, in its order; the terminal set when they pass. -/
def admission (g : Config) (s : State ρ) (r : String) (answer : Resolution)
    (bind : String → Nat → Int) : Except SubmitError (Finset String) :=
  match s.fatalError with
  | some message => .error (.fatal message)
  | none =>
    if requestIdIsReserved s r then .error (.alreadyExists r)
    else if g.maxInFlight.any (· ≤ s.requests.length) then .error .queueFull
    else match assignReplicaBindings g.processes bind with
      | none => .error .badBinding
      | some bindings =>
        match entryInstance g bindings with
        | .error e => .error e
        | .ok name =>
          if name ∉ g.stages then .error (.entryNotRegistered name)
          else resolveTerminalStages g answer

/-- `_submit_request` up to `submit_to_stage`. -/
def submitRequest (g : Config) (s : State ρ) (kind : Kind) (r : String) (answer : Resolution)
    (bind : String → Nat → Int) : Except SubmitError (State ρ) :=
  match admission g s r answer bind with
  | .error e => .error e
  | .ok stages =>
    let n := s.nextCall
    .ok
      { s with
        requests := s.requests.set r
          { state := .pending, currentStage := some g.entryStage, terminalStages := some stages,
            incarnation := n }
        completionFutures := s.completionFutures.set r n
        streamQueues := if kind = .stream then s.streamQueues.set r n else s.streamQueues
        futures := Function.update s.futures n .pending
        queues := Function.update s.queues n []
        calls := Function.update s.calls n (some { requestId := r, kind, resolved := stages })
        nextCall := n + 1 }

def expectedTerminalStages (g : Config) (s : State ρ) (r : String) : Finset String :=
  match s.requests.get? r with
  | none => g.terminalStages
  | some info => info.terminalStages.getD g.terminalStages

/-- `_submit_request` after `submit_to_stage`. -/
def markRunning (s : State ρ) (r : String) : State ρ :=
  { s with
    requests :=
      match s.requests.get? r with
      | none => s.requests
      | some info => s.requests.set r { info with state := .running } }

/-! ### Futures and queues -/

/-- A future that is done keeps its value. -/
def settleFuture (s : State ρ) (r : String) (value : FutureState ρ) : State ρ :=
  { s with
    futures :=
      match s.completionFutures.get? r with
      | none => s.futures
      | some f => if (s.futures f).done then s.futures else Function.update s.futures f value }

/-- The futures of streams are cancelled, since nobody awaits them. -/
def rejectCompletionFuture (s : State ρ) (r : String) (failure : Failure) : State ρ :=
  settleFuture s r (if s.streamQueues.contains r then .cancelled else .exception failure)

def put (s : State ρ) (r : String) (item : QueueItem ρ) : State ρ :=
  { s with
    queues :=
      match s.streamQueues.get? r with
      | none => s.queues
      | some q => Function.update s.queues q (s.queues q ++ [item]) }

/-! ### Abort -/

/-- `abort` up to its suspension: the state, and whether there is a task to await. -/
def abort (s : State ρ) (r : String) : State ρ × Bool :=
  match s.abortTasks.get? r with
  | some _ => (s, true)
  | none =>
    match s.requests.get? r with
    | none => (s, false)
    | some info =>
      if info.state = .completed ∨ info.state = .failed ∨ info.state = .aborted then (s, false)
      else
        ({ s with
          abortTasks := s.abortTasks.set r s.nextTask
          tasks := Function.update s.tasks s.nextTask
            (some { requestId := r, incarnation := info.incarnation })
          nextTask := s.nextTask + 1 }, true)

/-- `_run_abort` after its broadcast. The record that is marked is popped at once. -/
def runAbort (s : State ρ) (r : String) : State ρ :=
  match s.requests.get? r with
  | none => s
  | some _ =>
    let s := rejectCompletionFuture s r (.cancelled ("Request " ++ r ++ " aborted"))
    let s := put s r (.complete
      { requestId := r, fromStage := "coordinator", success := false, error := some "aborted" })
    { s with requests := s.requests.pop r, partialResults := s.partialResults.pop r }

def onAbortTaskDone (s : State ρ) (r : String) (t : Nat) : State ρ :=
  if s.abortTasks.get? r = some t then { s with abortTasks := s.abortTasks.pop r } else s

/-! ### Completion -/

/-- The rest of `_handle_completion` for a failure, after its broadcast. -/
def failRequest (s : State ρ) (msg : CompleteMessage ρ) : State ρ :=
  let r := msg.requestId
  let s := { s with partialResults := s.partialResults.pop r }
  let s := rejectCompletionFuture s r (fromMessage msg.error)
  let s := put s r (.complete msg)
  { s with requests := s.requests.pop r }

/-- One active terminal, or none configured. -/
def completeSingle (s : State ρ) (msg : CompleteMessage ρ) : State ρ :=
  let r := msg.requestId
  let s := settleFuture s r (.result (.single msg.result))
  let s := put s r (.complete msg)
  { s with requests := s.requests.pop r }

/-- Several terminals: collect, and resolve with the last of them. -/
def completeMulti (s : State ρ) (expected : Finset String) (msg : CompleteMessage ρ) : State ρ :=
  let r := msg.requestId
  let partials := ((s.partialResults.get? r).getD ∅).set msg.fromStage msg.result
  let s := { s with partialResults := s.partialResults.set r partials }
  let s := put s r (.complete msg)
  if partials.keys.toFinset ⊂ expected then s
  else
    let s := { s with partialResults := s.partialResults.pop r }
    let s := settleFuture s r (.result (.merged partials))
    { s with requests := s.requests.pop r }

/-- `_handle_completion`, up to the broadcast when the message reports a failure. -/
def handleCompletion (g : Config) (s : State ρ) (msg : CompleteMessage ρ) : State ρ :=
  match s.requests.get? msg.requestId with
  | none => s
  | some info =>
    let msg := { msg with fromStage := g.topology.logicalName msg.fromStage }
    if msg.success = false then
      { s with
        requests := s.requests.set msg.requestId { info with state := .failed, error := msg.error }
        loop := .failing msg info.incarnation }
    else
      let expected := expectedTerminalStages g s msg.requestId
      if expected ≠ ∅ ∧ msg.fromStage ∉ expected then s
      else if expected.card ≤ 1 then completeSingle s msg
      else completeMulti s expected msg

def handleStream (g : Config) (s : State ρ) (msg : StreamMessage ρ) : State ρ :=
  put s msg.requestId (.stream
    { msg with
      fromStage := g.topology.logicalName msg.fromStage
      stageName := msg.stageName.map g.topology.logicalName })

def failOne (message : String) (s : State ρ) (r : String) : State ρ :=
  put (rejectCompletionFuture s r (.runtime message)) r (.complete
    { requestId := r, fromStage := "coordinator", success := false, error := some message })

def failPendingRequests (s : State ρ) (message : String) : State ρ :=
  { s.requests.keys.foldl (failOne message) s with
    requests := ∅
    partialResults := ∅
    fatalError := some message }

/-! ### Owners -/

/-- A stream gives up what is still its own. -/
def releaseStream (s : State ρ) (c : Nat) (call : Call) : State ρ :=
  let s := s.setCall c { call with phase := .done }
  if s.streamQueues.get? call.requestId = some c then
    { s with
      streamQueues := s.streamQueues.pop call.requestId
      completionFutures := s.completionFutures.pop call.requestId }
  else s

/-- The `finally` of a stream, up to the abort it may await. -/
def closeStream (s : State ρ) (c : Nat) (call : Call) : State ρ :=
  if s.streamQueues.get? call.requestId = some c ∧ s.requests.contains call.requestId then
    let (s, awaited) := abort s call.requestId
    if awaited then s.setCall c { call with phase := .aborting } else releaseStream s c call
  else releaseStream s c call

/-- A call that resumes from `submit_to_stage`. A submit whose future is gone would
raise a `KeyError`. -/
def submitted (g : Config) (s : State ρ) (c : Nat) (call : Call) : State ρ :=
  let s := markRunning s call.requestId
  match call.kind with
  | .submit =>
    match s.completionFutures.get? call.requestId with
    | none => s.setCall c { call with phase := .done }
    | some f => s.setCall c { call with phase := .awaiting f }
  | .stream =>
    s.setCall c
      { call with phase := .streaming, expected := expectedTerminalStages g s call.requestId }

/-- A call that leaves `submit_to_stage` by an exception. A submit keeps its future in
the table. -/
def submitFailed (s : State ρ) (c : Nat) (call : Call) : State ρ :=
  match call.kind with
  | .submit => s.setCall c { call with phase := .done }
  | .stream => closeStream s c { call with exit := some .closed }

/-- One turn of a stream's loop, from `queue.get` to the next. -/
def streamNext (g : Config) (s : State ρ) (c : Nat) (call : Call) : State ρ :=
  match (s.queues c)[call.taken]? with
  | none => s
  | some (.stream _) => s.setCall c { call with taken := call.taken + 1 }
  | some (.complete msg) =>
    let call := { call with taken := call.taken + 1 }
    if msg.success = false then
      closeStream s c { call with exit := some (.raised (fromMessage msg.error)) }
    else
      let call :=
        { call with
          completedStages := insert (g.topology.logicalName msg.fromStage) call.completedStages }
      if call.expected = ∅ ∨ call.expected ⊆ call.completedStages then
        closeStream s c { call with exit := some .returned }
      else s.setCall c call

/-! ### Events -/

inductive Event (ρ : Type) where
  | call (kind : Kind) (r : String) (answer : Resolution) (bind : String → Nat → Int)
  | submitted (c : Nat)
  | submitFailed (c : Nat)
  | ownerWakes (c : Nat)
  | ownerCancelled (c : Nat)
  | streamNext (c : Nat)
  | streamClosed (c : Nat)
  | streamCleanup (c : Nat)
  | abort (r : String)
  | abortResumed (t : Nat)
  | abortFailed (t : Nat)
  | abortCallback (t : Nat)
  | completed (msg : CompleteMessage ρ)
  | failureResumed
  | failureFailed
  | streamed (msg : StreamMessage ρ)
  | failPending (message : String)

/-- A call's own turn, when it is at a phase where the event can happen. -/
def onCall (s : State ρ) (c : Nat) (ready : Phase → Bool) (act : Call → State ρ) : State ρ :=
  match s.calls c with
  | none => s
  | some call => if ready call.phase then act call else s

def onTask (s : State ρ) (t : Nat) (finished : Bool) (act : AbortTask → State ρ) : State ρ :=
  match s.tasks t with
  | none => s
  | some task => if task.finished = finished then act task else s

def finishTask (s : State ρ) (t : Nat) (task : AbortTask) : State ρ :=
  { s with tasks := Function.update s.tasks t (some { task with finished := true }) }

/-- `submit` past its `await`: the future is popped whether it has a value or not. -/
def ownerWakes (s : State ρ) (c : Nat) (call : Call) : State ρ :=
  match call.phase with
  | .awaiting f =>
    if (s.futures f).done then
      { s.setCall c { call with phase := .done } with
        completionFutures := s.completionFutures.pop call.requestId }
    else s
  | _ => s

/-- Cancelling a task cancels the future it awaits. -/
def ownerCancelled (s : State ρ) (call : Call) : State ρ :=
  match call.phase with
  | .awaiting f =>
    if (s.futures f).done then s
    else { s with futures := Function.update s.futures f .cancelled }
  | _ => s

/-- The coordinator's step. An event that cannot happen leaves the state as it is. The
completion loop takes one message at a time; after `fail_pending_requests` it takes one
more and ends, which shows nowhere, since then no request is tracked or admitted. -/
def step (g : Config) (s : State ρ) : Event ρ → State ρ
  | .call kind r answer bind =>
    match submitRequest g s kind r answer bind with
    | .ok s => s
    | .error _ => s
  | .submitted c => onCall s c (· = .submitting) (submitted g s c)
  | .submitFailed c => onCall s c (· = .submitting) (submitFailed s c)
  | .ownerWakes c => onCall s c (fun _ => true) (ownerWakes s c)
  | .ownerCancelled c => onCall s c (fun _ => true) (ownerCancelled s)
  | .streamNext c => onCall s c (· = .streaming) (streamNext g s c)
  | .streamClosed c =>
    onCall s c (· = .streaming) fun call => closeStream s c { call with exit := some .closed }
  | .streamCleanup c => onCall s c (· = .aborting) (releaseStream s c)
  | .abort r => (abort s r).1
  | .abortResumed t => onTask s t false fun task => runAbort (finishTask s t task) task.requestId
  | .abortFailed t => onTask s t false (finishTask s t)
  | .abortCallback t => onTask s t true fun task => onAbortTaskDone s task.requestId t
  | .completed msg => if s.loop.isIdle then handleCompletion g s msg else s
  | .failureResumed =>
    match s.loop with
    | .failing msg _ => { failRequest s msg with loop := .idle }
    | _ => s
  | .failureFailed =>
    match s.loop with
    | .failing _ _ => { s with loop := .stopped }
    | _ => s
  | .streamed msg => if s.loop.isIdle then handleStream g s msg else s
  | .failPending message => failPendingRequests s message

end SglangOmni.Pipeline.Coordinator
