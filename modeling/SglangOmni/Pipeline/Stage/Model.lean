import SglangOmni.Lib.BoundedSet
import SglangOmni.Lib.History
import SglangOmni.Pipeline.Replicas
import SglangOmni.Pipeline.Stage.Input

/-! A stage that owns its external io (role `single` or `leader`).

Inbound messages become receive tasks, chained per lane; the scheduler's outputs are
drained one at a time and routed downstream; aborts and failures leave a tombstone and
clear what the stage has of the request. The code between two suspensions is one step;
how a suspension ends, and what a data path finds, comes with the event. A wait that is
already over is a step of its own.

The tables are kept per request, as an `Entry`; an empty one is no entry. The logs at the
end of the state are for the proofs. -/
namespace SglangOmni.Pipeline.Stage
open Lib

variable {α : Type}

/-! ### Messages -/

inductive Transport where
  | direct
  | inline
  | relay
  deriving DecidableEq

inductive Body (α : Type) where
  | chunk (chunkId : Nat) (data : α)
  | done
  | error
  | payload (data : α)
  deriving DecidableEq

/-- `DataReadyMessage`; a signal's transport means nothing. -/
structure DataReady (α : Type) where
  requestId : String
  fromStage : String
  transport : Transport
  body : Body α
  replicaBindings : Option (Dict String Int)
  deriving DecidableEq

/-- An outgoing message of the scheduler. For a result, what `get_stream_done_targets`
(if there is one) and `get_next` say about it comes along. -/
inductive Out (α : Type) where
  | stream (requestId : String) (data : α) (target : Option String)
  | result (requestId : String) (data : α) (doneTargets : Option (List String))
      (next : Option (List String))
  | error (requestId : String)
  deriving DecidableEq

def Out.requestId : Out α → String
  | .stream r _ _ | .result r _ _ _ | .error r => r

/-! ### State -/

structure Config (α : Type) where
  name : String
  topology : ReplicaTopology
  endpoints : List String
  sameProcessTargets : List String
  localDispatcher : Bool
  streamTargets : List String
  isTerminal : Bool
  streamQueue : Bool
  canAcceptStreamBeforePayload : Bool
  inputHandler : InputHandler α

/-- What the tables have under one request id. -/
structure Entry (α : Type) where
  active : Bool := false
  stream : Bool := false
  chunkCounters : Dict String Nat := ∅
  firstStreamChunkSeen : Bool := false
  localStreamTargets : List String := []
  nonlocalStreamTargets : List String := []
  replicaBindings : Option (Dict String Int) := none
  input : Fanin α := {}
  deriving DecidableEq

/-- Where a receive task stands. A read and its ack may be for data that is thrown away
(`discard`); `ok` says that the data is there. -/
inductive At where
  | created
  | reading (discard : Bool)
  | acking (discard ok : Bool)
  | waiting (ok : Bool)
  | failing
  | finishing
  | done
  deriving DecidableEq

structure Task (α : Type) where
  msg : DataReady α
  predecessor : Option Nat
  pc : At
  raised : Bool := false
  deriving DecidableEq

/-- A send that the outbox drain awaits. -/
structure Flight (α : Type) where
  target : String
  msg : DataReady α
  control : Bool
  published : Bool := false
  deriving DecidableEq

inductive DrainError where
  | missingBinding (requestId target : String)
  | other
  deriving DecidableEq

/-- What the drain is in the middle of; `gather` before its sends have started. -/
inductive Job (α : Type) where
  | stream (requestId : String)
  | gather (requestId : String) (data : α) (targets : List String)
  | gathering (requestId : String)
  | signals (requestId : String) (rest doneTargets : List String) (result : α)
      (next : Option (List String))
  | hops (requestId : String) (rest doneTargets : List String) (single : Bool) (result : α)
  | completing (requestId : String)
  | failing (requestId : String)
  deriving DecidableEq

inductive Drain (α : Type) where
  | idle
  | busy (job : Job α)
  | crashed (error : DrainError)
  deriving DecidableEq

/-- What the scheduler's inbox and the input handler get, under the sender's own name. -/
inductive Delivery (α : Type) where
  | item (requestId fromStage : String) (body : Body α)
  | newRequest (requestId : String) (data : α)
  deriving DecidableEq

structure State (α : Type) where
  aborted : List String
  entries : String → Entry α
  tasks : List (Task α)
  laneTails : Dict (String × String) Nat
  failures : List String
  drain : Drain α
  flights : List (Flight α)
  running : Bool
  delivered : List (Delivery α)
  started : List (String × DataReady α)
  sent : List (String × DataReady α)
  outputs : List (Out α)
  cleared : List String

def State.create : State α where
  aborted := []
  entries := fun _ => {}
  tasks := []
  laneTails := ∅
  failures := []
  drain := .idle
  flights := []
  running := true
  delivered := []
  started := []
  sent := []
  outputs := []
  cleared := []

def State.modify (s : State α) (r : String) (f : Entry α → Entry α) : State α :=
  { s with entries := Function.update s.entries r (f (s.entries r)) }

def State.setTask (s : State α) (i : Nat) (task : Task α) : State α :=
  { s with tasks := s.tasks.set i task }

/-- `scheduler.inbox.put`, or the input handler's `receive`. -/
def State.deliver (s : State α) (d : Delivery α) : State α := { s with delivered := s.delivered ++ [d] }

/-! ### Request state -/

def recordReplicaBindings (s : State α) (r : String) (bindings : Option (Dict String Int)) : State α :=
  match bindings with
  | none => s
  | some b =>
    if b = ∅ ∨ r ∈ s.aborted then s
    else s.modify r fun e => { e with replicaBindings := some (e.replicaBindings.getD b) }

def clearRequestState (s : State α) (r : String) : State α :=
  { s.modify r (fun _ => {}) with cleared := s.cleared ++ [r] }

/-- `_record_aborted_request_id`; `hint` for the iteration order of the set. -/
def recordAborted (s : State α) (r : String) (hint : List String) : State α :=
  { s with aborted := record 10000 5000 hint s.aborted r }

def onAbort (s : State α) (r : String) (hint : List String) : State α :=
  clearRequestState (recordAborted s r hint) r

def activate (s : State α) (r : String) : State α := s.modify r fun e => { e with active := true }

def openStream (cfg : Config α) (s : State α) (r : String) : State α :=
  if cfg.streamQueue then s.modify r fun e => { e with stream := true } else s

/-- `_execute`. -/
def execute (s : State α) (r : String) (data : α) : State α :=
  if r ∈ s.aborted then s else s.deliver (.newRequest r data)

def onSubmit (cfg : Config α) (s : State α) (r : String) (data : α)
    (bindings : Option (Dict String Int)) : State α :=
  if r ∈ s.aborted then s
  else execute (openStream cfg (activate (recordReplicaBindings s r bindings) r) r) r data

/-! ### What reaches the scheduler

Each of these is atomic; `fails` when it goes on to report a failure, `raises` when the
handler's coroutine raises. -/

inductive Then where
  | returns
  | fails
  | raises
  deriving DecidableEq

def openPrePayloadStreamIfAllowed (cfg : Config α) (s : State α) (r : String) : State α × Bool :=
  if cfg.streamQueue = false then (s, false)
  else if (s.entries r).stream then (s, true)
  else if cfg.canAcceptStreamBeforePayload = false then (s, false)
  else (s.modify r fun e => { e with active := true, stream := true }, true)

/-- `_route_stream_item_or_fail`. -/
def routeStreamItemOrFail (cfg : Config α) (s : State α) (r source : String) (body : Body α) :
    State α × Then :=
  match openPrePayloadStreamIfAllowed cfg s r with
  | (s, true) => (s.deliver (.item r source body), .returns)
  | (s, false) => (s, .fails)

/-- `_receive_stream_signal`. -/
def receiveStreamSignal (cfg : Config α) (s : State α) (r source : String) (error : Bool) :
    State α × Then :=
  if r ∈ s.aborted then (s, .returns)
  else if error then (activate s r, .fails)
  else
    match openPrePayloadStreamIfAllowed cfg (activate s r) r with
    | (s, true) => (s.deliver (.item r source .done), .returns)
    | (s, false) => (s, .fails)

/-- `_receive_payload_from_stage`. -/
def receivePayloadFromStage (cfg : Config α) (s : State α) (r source : String) (data : α) :
    State α × Then :=
  if r ∈ s.aborted then (s, .returns)
  else
    let s := (openStream cfg (activate s r) r).deliver (.item r source (.payload data))
    match cfg.inputHandler.receive (s.entries r).input r (cfg.topology.logicalName source) data with
    | (input, .error _) => (s.modify r fun e => { e with input }, .raises)
    | (input, .ok none) => (s.modify r fun e => { e with input }, .returns)
    | (input, .ok (some merged)) => (execute (s.modify r fun e => { e with input }) r merged, .returns)

/-! ### Receive tasks -/

def scheduleReceiveTask (s : State α) (msg : DataReady α) : State α :=
  let s := recordReplicaBindings s msg.requestId msg.replicaBindings
  let lane := (msg.requestId, msg.fromStage)
  { s with
    tasks := s.tasks ++ [{ msg, predecessor := s.laneTails.get? lane, pc := .created }]
    laneTails := s.laneTails.set lane s.tasks.length }

/-- The first step of a handler; `ok` when its data reference is good. -/
def taskStarts (s : State α) (i : Nat) (task : Task α) (ok : Bool) : State α :=
  let r := task.msg.requestId
  let goTo (s : State α) (pc : At) := s.setTask i { task with pc }
  let raise (s : State α) := s.setTask i { task with pc := .finishing, raised := true }
  match task.msg.body with
  | .done | .error => goTo s (.waiting true)
  | .chunk .. =>
    if r ∈ s.aborted then
      match task.msg.transport with
      | .inline => goTo s .finishing
      | .direct => if ok then goTo s .finishing else raise s
      | .relay => if ok then goTo s (.reading true) else raise s
    else
      match task.msg.transport with
      | .inline | .direct => goTo (activate s r) (.waiting ok)
      | .relay => if ok then goTo (activate s r) (.reading false) else raise (activate s r)
  | .payload _ =>
    if r ∈ s.aborted then
      match task.msg.transport with
      | .direct => if ok then goTo s .finishing else raise s
      | .inline | .relay => if ok then goTo s (.reading true) else raise s
    else
      match task.msg.transport with
      | .direct => goTo s (.waiting ok)
      | .inline | .relay => if ok then goTo s (.reading false) else raise s

/-- A read, an ack or a failure report is over. -/
def taskResumes (s : State α) (i : Nat) (task : Task α) (ok : Bool) : State α :=
  match task.pc with
  | .reading discard => s.setTask i { task with pc := .acking discard ok }
  | .acking discard read =>
    if ok = false then s.setTask i { task with pc := .finishing, raised := true }
    else if discard then s.setTask i { task with pc := .finishing }
    else s.setTask i { task with pc := .waiting read }
  | .failing =>
    if ok then (clearRequestState s task.msg.requestId).setTask i { task with pc := .finishing }
    else s.setTask i { task with pc := .finishing, raised := true }
  | .created | .waiting _ | .finishing | .done => s

/-- What a handler does when the messages before its own are through. -/
def handle (cfg : Config α) (s : State α) (task : Task α) (ok : Bool) : State α × Then :=
  let r := task.msg.requestId
  match task.msg.body with
  | .done => receiveStreamSignal cfg s r task.msg.fromStage false
  | .error => receiveStreamSignal cfg s r task.msg.fromStage true
  | .chunk id data =>
    if r ∈ s.aborted then (s, .returns)
    else if ok then routeStreamItemOrFail cfg s r task.msg.fromStage (.chunk id data)
    else (s, .fails)
  | .payload data =>
    if ok then receivePayloadFromStage cfg s r task.msg.fromStage data else (s, .fails)

/-- The task ends: its successor may go on, and an exception ends the stage. -/
def taskEnds (s : State α) (i : Nat) (task : Task α) : State α :=
  let lane := (task.msg.requestId, task.msg.fromStage)
  { s.setTask i { task with pc := .done } with
    laneTails := if s.laneTails.get? lane = some i then s.laneTails.pop lane else s.laneTails
    running := s.running && !task.raised }

def predecessorDone (s : State α) (task : Task α) : Bool :=
  match task.predecessor with
  | none => true
  | some p =>
    match s.tasks[p]? with
    | none => true
    | some task => task.pc = .done

/-- The predecessor is through. -/
def taskProceeds (cfg : Config α) (s : State α) (i : Nat) (task : Task α) (hint : List String) : State α :=
  match task.pc with
  | .waiting ok =>
    match handle cfg s task ok with
    | (s, .returns) => s.setTask i { task with pc := .finishing }
    | (s, .fails) => (recordAborted s task.msg.requestId hint).setTask i { task with pc := .failing }
    | (s, .raises) => s.setTask i { task with pc := .finishing, raised := true }
  | .finishing => taskEnds s i task
  | .created | .reading _ | .acking .. | .failing | .done => s

/-! ### Local dispatch -/

/-- A local call that reports a failure stays in flight until the report is sent. -/
def localCall (r : String) (hint : List String) : State α × Then → State α
  | (s, .returns) | (s, .raises) => s
  | (s, .fails) => { recordAborted s r hint with failures := s.failures ++ [r] }

def receiveLocalPayload (cfg : Config α) (s : State α) (r source : String) (data : α)
    (bindings : Option (Dict String Int)) (hint : List String) : State α :=
  localCall r hint (receivePayloadFromStage cfg (recordReplicaBindings s r bindings) r source data)

def receiveLocalStreamChunk (cfg : Config α) (s : State α) (r source : String) (chunkId : Nat)
    (data : α) (bindings : Option (Dict String Int)) (hint : List String) : State α :=
  if r ∈ s.aborted then s
  else
    localCall r hint
      (routeStreamItemOrFail cfg (activate (recordReplicaBindings s r bindings) r) r source
        (.chunk chunkId data))

def receiveLocalStreamSignal (cfg : Config α) (s : State α) (r source : String) (error : Bool)
    (bindings : Option (Dict String Int)) (hint : List String) : State α :=
  localCall r hint (receiveStreamSignal cfg (recordReplicaBindings s r bindings) r source error)

/-! ### Sends -/

/-- What the data paths find at a send: the transport of a target's data (`none` when the
data cannot be sent), and whether a projected payload shares nothing with the original. -/
structure Choice where
  transport : String → Option Transport
  isolated : Bool

def resolveTargetInstance (cfg : Config α) (s : State α) (r target : String) : Except DrainError String :=
  if cfg.topology.isReplicated target = false then .ok target
  else
    match (s.entries r).replicaBindings.bind fun b => b.get? target with
    | none => .error (.missingBinding r target)
    | some id =>
      match cfg.topology.resolve target id with
      | .ok name => .ok name
      | .error _ => .error .other

/-- The instance of a send's target, with its endpoint. -/
def resolveEndpoint (cfg : Config α) (s : State α) (r target : String) : Except DrainError String :=
  match resolveTargetInstance cfg s r target with
  | .error e => .error e
  | .ok target => if target ∈ cfg.endpoints then .ok target else .error .other

def addTarget (targets : List String) (target : String) : List String :=
  if target ∈ targets then targets else targets ++ [target]

/-- A send is under way. -/
def fly (cfg : Config α) (s : State α) (r target : String) (control : Bool) (transport : Transport)
    (body : Body α) : State α :=
  let msg : DataReady α :=
    { requestId := r, fromStage := cfg.name, transport, body
      replicaBindings := (s.entries r).replicaBindings }
  { s with
    flights := s.flights ++ [{ target, msg, control }]
    started := if control then s.started ++ [(target, msg)] else s.started }

def recordLocalStreamTarget (s : State α) (r target : String) : State α :=
  s.modify r fun e => { e with localStreamTargets := addTarget e.localStreamTargets target }

def recordNonlocalStreamTarget (s : State α) (r target : String) : State α :=
  s.modify r fun e => { e with nonlocalStreamTargets := addTarget e.nonlocalStreamTargets target }

/-- `_stream_chunk_counters` and `_first_stream_chunk_seen` for one more chunk. -/
def countChunk (s : State α) (r target : String) : State α :=
  s.modify r fun e =>
    { e with
      chunkCounters := e.chunkCounters.set target ((e.chunkCounters.get? target).getD 0 + 1)
      firstStreamChunkSeen := true }

/-- `_send_stream_to_target` up to its suspension, with what it raises before. -/
def sendStreamToTarget (cfg : Config α) (choice : Choice) (r : String) (data : α) (s : State α)
    (target : String) : State α × Option DrainError :=
  match resolveEndpoint cfg s r target with
  | .error e => (s, some e)
  | .ok target =>
    let chunkId := ((s.entries r).chunkCounters.get? target).getD 0
    let s := countChunk s r target
    if target ∈ cfg.sameProcessTargets then
      if cfg.localDispatcher = false then (s, some .other)
      else (fly cfg (recordLocalStreamTarget s r target) r target false .direct (.chunk chunkId data), none)
    else
      let s := recordNonlocalStreamTarget s r target
      match choice.transport target with
      | none => (s, some .other)
      | some transport => (fly cfg s r target true transport (.chunk chunkId data), none)

/-- `_send_stream_signal_to_target`. -/
def sendStreamSignalToTarget (cfg : Config α) (s : State α) (r target : String) :
    State α × Option DrainError :=
  match resolveEndpoint cfg s r target with
  | .error e => (s, some e)
  | .ok target =>
    if target ∈ cfg.sameProcessTargets then
      if cfg.localDispatcher = false then (s, some .other)
      else (fly cfg (recordLocalStreamTarget s r target) r target false .direct .done, none)
    else (fly cfg (recordNonlocalStreamTarget s r target) r target true .direct .done, none)

def canSendFullPayloadLocally (s : State α) (r target : String) (doneTargets : List String) : Bool :=
  if target ∈ (s.entries r).nonlocalStreamTargets then false
  else if target ∉ doneTargets then true
  else target ∈ (s.entries r).localStreamTargets

/-- `_send_to_stage`. -/
def sendToStage (cfg : Config α) (choice : Choice) (s : State α) (r target : String) (data : α)
    (single : Bool) (doneTargets : List String) : State α × Option DrainError :=
  match resolveEndpoint cfg s r target with
  | .error e => (s, some e)
  | .ok target =>
    if (single || choice.isolated) && target ∈ cfg.sameProcessTargets &&
        canSendFullPayloadLocally s r target doneTargets then
      if cfg.localDispatcher = false then (s, some .other)
      else (fly cfg s r target false .direct (.payload data), none)
    else
      match choice.transport target with
      | none => (s, some .other)
      | some transport => (fly cfg s r target true transport (.payload data), none)

/-! ### The outbox drain -/

/-- The drain raises, which ends the stage; a stray send that raises later changes nothing. -/
def crash (s : State α) (e : DrainError) : State α :=
  match s.drain with
  | .crashed _ => s
  | _ => { s with drain := .crashed e, running := false }

/-- The drain awaits what it has just started, or raises. -/
def await (job : Job α) : State α × Option DrainError → State α
  | (s, none) => { s with drain := .busy job }
  | (s, some e) => crash s e

/-- The rest of `_route_result` from its hops on. -/
def routeHops (cfg : Config α) (choice : Choice) (s : State α) (r : String) (rest doneTargets : List String)
    (single : Bool) (result : α) : State α :=
  match rest with
  | [] => { clearRequestState s r with drain := .idle }
  | target :: rest =>
    await (.hops r rest doneTargets single result)
      (sendToStage cfg choice s r target result single doneTargets)

/-- The rest of `_route_result` from its stream-done signals on. -/
def routeSignals (cfg : Config α) (choice : Choice) (s : State α) (r : String)
    (rest doneTargets : List String) (result : α) (next : Option (List String)) : State α :=
  match rest, next with
  | target :: rest, next =>
    await (.signals r rest doneTargets result next) (sendStreamSignalToTarget cfg s r target)
  | [], none => { s with drain := .busy (.completing r) }
  | [], some targets => routeHops cfg choice s r targets doneTargets (targets.length = 1) result

/-- `_send_stream_to_coordinator`. -/
def sendStreamToCoordinator (cfg : Config α) (s : State α) (r : String) : State α :=
  if cfg.isTerminal = false then crash s .other
  else if r ∈ s.aborted then s
  else { countChunk s r "coordinator" with drain := .busy (.stream r) }

/-- One iteration of `_drain_outbox_external`, up to its first suspension. -/
def drainOutput (cfg : Config α) (choice : Choice) (s : State α) (out : Out α) (hint : List String) : State α :=
  if (s.entries out.requestId).active = false then s
  else
    let s := { s with outputs := s.outputs ++ [out] }
    match out with
    | .result r data doneTargets next =>
      let doneTargets := doneTargets.getD cfg.streamTargets
      routeSignals cfg choice s r doneTargets doneTargets data next
    | .stream r data (some target) => await (.stream r) (sendStreamToTarget cfg choice r data s target)
    | .stream r data none =>
      if cfg.streamTargets = [] then sendStreamToCoordinator cfg s r
      else { s with drain := .busy (.gather r data cfg.streamTargets) }
    | .error r => { recordAborted s r hint with drain := .busy (.failing r) }

/-- One more of the gathered sends starts. -/
def gatherOne (cfg : Config α) (choice : Choice) (r : String) (data : α)
    (acc : State α × Option DrainError) (target : String) : State α × Option DrainError :=
  let next := sendStreamToTarget cfg choice r data acc.1 target
  (next.1, acc.2.or next.2)

/-- The gathered sends start, all of them; the first exception is the drain's. -/
def gatherStarts (cfg : Config α) (choice : Choice) (s : State α) (r : String) (data : α)
    (targets : List String) : State α :=
  await (.gathering r) (targets.foldl (gatherOne cfg choice r data) (s, none))

/-- The drain goes on when all it awaits has returned; `ok` for what has no flight. -/
def drainResumes (cfg : Config α) (choice : Choice) (s : State α) (ok : Bool) : State α :=
  match s.drain with
  | .busy (.gather ..) | .idle | .crashed _ => s
  | .busy job =>
    if ok = false then crash s .other
    else
      match job with
      | .stream _ | .gathering _ | .gather .. => { s with drain := .idle }
      | .signals r rest doneTargets result next => routeSignals cfg choice s r rest doneTargets result next
      | .hops r rest doneTargets single result => routeHops cfg choice s r rest doneTargets single result
      | .completing r | .failing r => { clearRequestState s r with drain := .idle }

/-! ### Events -/

inductive Event (α : Type) where
  | submit (requestId : String) (data : α) (bindings : Option (Dict String Int))
  | dataReady (msg : DataReady α)
  | taskStarts (i : Nat) (ok : Bool)
  | taskResumes (i : Nat) (ok : Bool)
  | taskProceeds (i : Nat) (hint : List String)
  | localPayload (requestId source : String) (data : α) (bindings : Option (Dict String Int))
      (hint : List String)
  | localStreamChunk (requestId source : String) (chunkId : Nat) (data : α)
      (bindings : Option (Dict String Int)) (hint : List String)
  | localStreamSignal (requestId source : String) (error : Bool) (bindings : Option (Dict String Int))
      (hint : List String)
  | schedulerCrash (requestId : String) (hint : List String)
  | failureSent (k : Nat) (ok : Bool)
  | abort (requestId : String) (hint : List String)
  | output (out : Out α) (choice : Choice) (hint : List String)
  | gatherStarts (choice : Choice)
  | publish (i : Nat)
  | sendReturns (i : Nat)
  | sendRaises (i : Nat)
  | drainResumes (ok : Bool) (choice : Choice)

def onTask (s : State α) (i : Nat) (act : Task α → State α) : State α :=
  match s.tasks[i]? with
  | none => s
  | some task => act task

/-- A send to a target is published after the ones to the same target before it. -/
def publish (s : State α) (i : Nat) : State α :=
  match s.flights[i]? with
  | none => s
  | some f =>
    if f.control && !f.published && (s.flights.take i).all (fun g => g.target ≠ f.target || g.published) then
      { s with
        flights := s.flights.set i { f with published := true }
        sent := s.sent ++ [(f.target, f.msg)] }
    else s

def sendReturns (s : State α) (i : Nat) : State α :=
  match s.flights[i]? with
  | none => s
  | some f => if !f.control || f.published then { s with flights := s.flights.eraseIdx i } else s

def sendRaises (s : State α) (i : Nat) : State α :=
  match s.flights[i]? with
  | none => s
  | some _ => crash { s with flights := s.flights.eraseIdx i } .other

/-- The report of a failure that no task or drain is waiting for is over. -/
def failureSent (s : State α) (k : Nat) (ok : Bool) : State α :=
  match s.failures[k]? with
  | none => s
  | some r =>
    let s := { s with failures := s.failures.eraseIdx k }
    if ok then clearRequestState s r else s

/-- The stage's step; an event that cannot happen leaves the state as it is. -/
def step (cfg : Config α) (s : State α) : Event α → State α
  | .submit r data bindings => if s.running then onSubmit cfg s r data bindings else s
  | .dataReady msg => if s.running then scheduleReceiveTask s msg else s
  | .taskStarts i ok =>
    onTask s i fun task => if task.pc = .created then taskStarts s i task ok else s
  | .taskResumes i ok => onTask s i fun task => taskResumes s i task ok
  | .taskProceeds i hint =>
    onTask s i fun task => if predecessorDone s task then taskProceeds cfg s i task hint else s
  | .localPayload r source data bindings hint => receiveLocalPayload cfg s r source data bindings hint
  | .localStreamChunk r source chunkId data bindings hint =>
    receiveLocalStreamChunk cfg s r source chunkId data bindings hint
  | .localStreamSignal r source error bindings hint =>
    receiveLocalStreamSignal cfg s r source error bindings hint
  | .schedulerCrash r hint => { recordAborted s r hint with failures := s.failures ++ [r] }
  | .failureSent k ok => failureSent s k ok
  | .abort r hint => onAbort s r hint
  | .output out choice hint =>
    match s.drain with
    | .idle => drainOutput cfg choice s out hint
    | _ => s
  | .gatherStarts choice =>
    match s.drain with
    | .busy (.gather r data targets) => gatherStarts cfg choice s r data targets
    | _ => s
  | .publish i => publish s i
  | .sendReturns i => sendReturns s i
  | .sendRaises i => sendRaises s i
  | .drainResumes ok choice => if s.flights.isEmpty then drainResumes cfg choice s ok else s

end SglangOmni.Pipeline.Stage
