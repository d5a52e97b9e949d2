import SglangOmni.Lib.BoundedSet
import SglangOmni.Lib.Dict
import SglangOmni.Lib.History
import SglangOmni.Scheduling.Batches

/-! `OmniScheduler`: admission, the batch loops, and what is put on the outbox.

The scheduler thread takes messages, stages and builds requests, asks upstream for the next
batch, runs it at once or launches it one step ahead, and goes through `stream_output`.
Beside it builder futures complete, and the stage aborts requests. Every piece that the
code does under its lock, or that no other thread can look into, is one step; `phase` says
where the thread stands. What upstream decides (its plan, which requests finish, its
verdict on an admission) and what the model does (its failures, the chunks it yields) come
with the events. -/
namespace SglangOmni.Scheduling.Scheduler
open Lib

/-! ### Messages -/

/-- A stream chunk, by its number. -/
abbrev Chunk := Nat

inductive Input where
  | newRequest
  | streamChunk (chunk : Chunk)
  | streamDone
  deriving DecidableEq

structure IncomingMessage where
  requestId : String
  input : Input
  deriving DecidableEq

inductive OutKind where
  | result
  | error
  | stream
  deriving DecidableEq

structure OutgoingMessage where
  requestId : String
  kind : OutKind
  deriving DecidableEq

/-! ### Admission -/

structure Payload where
  requestId : String
  prefetchedChunks : List Chunk := []
  prefetchedStreamDone : Bool := false
  deriving DecidableEq

/-- `_PendingStreamIngress`. -/
structure Ingress where
  chunks : List Chunk := []
  done : Bool := false
  deriving DecidableEq

/-- What a request builder returns, as far as admission looks at it. `limitsError` is what
`_prepare_request_limits` finds, if the request asks for it. -/
structure Built where
  inputLen : Nat
  maxNewTokens : Nat
  limitsError : Bool
  deriving DecidableEq

inductive BuildResult where
  | failed
  | built (value : Built)
  | deferred (value : Built)
  deriving DecidableEq

structure PendingBuild where
  payload : Payload
  pendingStreamDone : Bool
  future : Option BuildResult
  deriving DecidableEq

structure PendingAdmission where
  payload : Payload
  pendingStreamDone : Bool
  value : Built
  deriving DecidableEq

/-- What others say when a built request is admitted: whether the `ready` future of a deferred
admission is done, and with what; upstream's `_set_or_validate_priority`; and upstream's
`_abort_on_queued_limit`. -/
structure Answers where
  ready : Option Bool
  prioritized : Bool
  overLimit : Bool
  deriving DecidableEq

/-- What was handed to a request's data: a chunk, or the end of the stream. -/
inductive Handed where
  | chunk (chunk : Chunk)
  | done
  deriving DecidableEq

/-- Without a build executor there is no `requestBuildMaxPending`. There is none with followers,
so a rank that has one is the entry rank. -/
structure Config where
  requestBuildMaxPending : Option Nat
  maxQueuedRequests : Option Nat
  maxReqLen : Nat
  isEntryRank : Bool
  entry_of_executor : requestBuildMaxPending.isSome = true → isEntryRank = true
  isRequestBuildReady : Payload → Bool → Bool
  shouldRecheck : String → Chunk → Bool

def abortedLimit : Nat := 10000

def abortedRetained : Nat := 5000

def completedLimit : Nat := 10000

def pendingStreamLimit : Nat := 10000

def pendingStreamRetained : Nat := 5000

/-! ### State -/

/-- Where the scheduler thread stands in an iteration. -/
inductive Phase where
  | top
  | received (recvReqs : List Payload)
  | taken (recvReqs : List Payload)
  | admitting (rejected selected : List Payload)
  | admitted
  | planned (flushed : Bool)
  | resolving (prev : Pending)
  | ended
  deriving DecidableEq

structure State where
  aborted : List String
  completed : List String
  ingress : Dict String Ingress
  deferred : Dict String Payload
  dirty : List String
  builds : Dict String PendingBuild
  admissions : Dict String PendingAdmission
  backlog : List Payload
  waiting : List Nat
  batches : Batches
  chunkedReq : Option Nat
  paused : Bool
  phase : Phase
  /-- What `stream_output` still has to go through, and the request it has claimed. -/
  streaming : List Nat
  claimed : Option Nat
  outbox : List OutgoingMessage
  /-- What each request data was handed. -/
  data : List (List Handed)
  /-- How many `Req` and batch objects there are. -/
  reqCount : Nat
  batchCount : Nat
  /-- History: every message `recv_requests` got, every id that was aborted, every id the stage
  aborted. -/
  received : List IncomingMessage
  abortLog : List String
  stageAborts : List String

def State.create : State where
  aborted := []
  completed := []
  ingress := ∅
  deferred := ∅
  dirty := []
  builds := ∅
  admissions := ∅
  backlog := []
  waiting := []
  batches :=
    { req := fun _ => { rid := "" }
      reqs := fun _ => []
      runningBatch := 0
      curBatch := none
      lastBatch := none
      asyncPending := none }
  chunkedReq := none
  paused := false
  phase := .top
  streaming := []
  claimed := none
  outbox := []
  data := []
  reqCount := 0
  batchCount := 1
  received := []
  abortLog := []
  stageAborts := []

/-! ### Aborts -/

/-- The tombstones after an abort: a full table loses its oldest. -/
def recordAborted (aborted : List String) (r : String) : List String :=
  if r ∈ aborted then aborted
  else if abortedLimit ≤ aborted.length then aborted.drop (aborted.length - (abortedRetained - 1)) ++ [r]
  else aborted ++ [r]

/-- `_remove_from_batch` on the four batches. -/
def removeFromBatches (b : Batches) (r : String) : Batches :=
  let b := b.removeFromBatch r (some b.runningBatch)
  let b := b.removeFromBatch r b.curBatch
  let b := b.removeFromBatch r b.lastBatch
  b.removeFromBatch r (b.asyncPending.map (·.batch))

/-- `abort`. What it does to the inbox shows in the messages that are received later. -/
def abort (s : State) (r : String) (deferRunningCleanup : Bool) : State :=
  let marked := if deferRunningCleanup then s.batches.markRunningRequestAborted r else (s.batches, false)
  let detached := marked.1.detachAll r s.waiting
  { s with
    aborted := recordAborted s.aborted r
    builds := s.builds.pop r
    admissions := s.admissions.pop r
    backlog := s.backlog.filter fun p => p.requestId ≠ r
    waiting := s.waiting.filter fun q => (s.batches.req q).rid ≠ r
    ingress := s.ingress.pop r
    deferred := s.deferred.pop r
    dirty := s.dirty.filter (· ≠ r)
    batches := if marked.2 then detached else removeFromBatches detached r
    abortLog := s.abortLog ++ [r] }

/-- `_emit_request_error`. -/
def emitRequestError (cfg : Config) (s : State) (r : String) : State :=
  if cfg.isEntryRank then { s with outbox := s.outbox ++ [⟨r, .error⟩] } else s

/-- An error is reported, and the request aborted. -/
def fail (cfg : Config) (s : State) (r : String) (deferRunningCleanup : Bool) : State :=
  abort (emitRequestError cfg s r) r deferRunningCleanup

/-- `_UpstreamAbortSender.send_output`. -/
def upstreamAbort (cfg : Config) (s : State) (r : String) : State := fail cfg s r false

/-- `_handle_batch_failure`. -/
def handleBatchFailure (cfg : Config) (s : State) (reqs : List Nat) : State :=
  (reqs.map fun q => (s.batches.req q).rid).foldl (fun s r => fail cfg s r false) s

/-! ### Stream input -/

/-- `_find_request_data`: the data of the first request that has the id. -/
def findRequestData (s : State) (r : String) : Option Nat :=
  match (s.batches.listed ++ s.waiting).find? fun q => (s.batches.req q).rid = r with
  | none => none
  | some q => (s.batches.req q).omniData

/-- `_append_stream_chunk` and `_mark_stream_done`. -/
def hand (s : State) (data : Nat) (item : Handed) : State :=
  { s with data := s.data.modify data (· ++ [item]) }

/-- `_reserve_pending_stream_request`. -/
def reservePendingStreamRequest (ingress : Dict String Ingress) (r : String) : Dict String Ingress :=
  if ingress.contains r then ingress
  else if ingress.length < pendingStreamLimit then ingress
  else ingress.drop (ingress.length - pendingStreamRetained + 1)

/-- The ingress entry of a request, made when it is not there, and changed. -/
def park (s : State) (r : String) (f : Ingress → Ingress) : State :=
  let ingress := reservePendingStreamRequest s.ingress r
  { s with ingress := ingress.set r (f ((ingress.get? r).getD {})) }

def markDirty (s : State) (r : String) : State := { s with dirty := addId s.dirty r }

/-- The ingress entry with one more item. -/
def Ingress.add (i : Ingress) : Handed → Ingress
  | .chunk chunk => { i with chunks := i.chunks ++ [chunk] }
  | .done => { i with done := true }

/-- What a chunk and the end of the stream have in common: a closed id drops it, a request's data
takes it, and otherwise it is parked; a deferred payload may then be worth another look. -/
def onStream (s : State) (r : String) (item : Handed) (recheck : Bool) : State :=
  if r ∈ s.completed then s
  else
    match findRequestData s r with
    | some data => hand s data item
    | none =>
      let parked := park s r (·.add item)
      if s.deferred.contains r && recheck then markDirty parked r else parked

/-- `_on_stream_chunk`. -/
def onStreamChunk (cfg : Config) (s : State) (r : String) (chunk : Chunk) : State :=
  onStream s r (.chunk chunk) (cfg.shouldRecheck r chunk)

/-- `_on_stream_done`. -/
def onStreamDone (s : State) (r : String) : State := onStream s r .done true

/-- One message of `recv_requests`. -/
def recvOne (cfg : Config) (acc : State × List Payload) (msg : IncomingMessage) : State × List Payload :=
  let s := { acc.1 with received := acc.1.received ++ [msg] }
  if msg.requestId ∈ s.aborted then (s, acc.2)
  else
    match msg.input with
    | .newRequest =>
      ({ s with completed := s.completed.filter (· ≠ msg.requestId) }, acc.2 ++ [{ requestId := msg.requestId }])
    | .streamChunk chunk => (onStreamChunk cfg s msg.requestId chunk, acc.2)
    | .streamDone => (onStreamDone s msg.requestId, acc.2)

/-- `recv_requests`. -/
def recvRequests (cfg : Config) (s : State) (msgs : List IncomingMessage) : State × List Payload :=
  msgs.foldl (recvOne cfg) (s, [])

/-- `_take_deferred_request_payloads`; the dirty ids are a set, whose order nobody controls. -/
def takeDeferredRequestPayloads (s : State) (order : List String) : State × List Payload :=
  let ids := arranged order s.dirty
  ({ s with deferred := ids.foldl Dict.pop s.deferred, dirty := [] }, ids.filterMap s.deferred.get?)

/-! ### Staging -/

/-- `_queued_admission_count`. -/
def queuedAdmissionCount (s : State) : Nat :=
  s.waiting.length + s.builds.length + s.admissions.length + s.backlog.length + s.deferred.length

/-- `_waiting_queue_is_full`. -/
def waitingQueueIsFull (cfg : Config) (s : State) : Bool :=
  match cfg.maxQueuedRequests with
  | none => false
  | some limit => limit ≤ queuedAdmissionCount s

/-- `_reject_queue_full`. -/
def rejectQueueFull (cfg : Config) (s : State) (payload : Payload) : State := fail cfg s payload.requestId true

/-- `_request_build_backlog_limit`. -/
def backlogLimit (cfg : Config) (maxPending : Nat) : Option Nat :=
  match cfg.maxQueuedRequests with
  | none => none
  | some limit => if 0 < limit then some (max maxPending limit) else none

/-- The request is aborted, or its build or its admission is under way. -/
def inProgress (s : State) (r : String) : Bool := r ∈ s.aborted || s.builds.contains r || s.admissions.contains r

/-- What is taken from the backlog, and what is left of it. -/
def takeBacklog (s : State) : Nat → List Payload → List Payload × List Payload
  | 0, backlog => ([], backlog)
  | _, [] => ([], [])
  | capacity + 1, payload :: backlog =>
    if inProgress s payload.requestId then takeBacklog s (capacity + 1) backlog
    else
      let rest := takeBacklog s capacity backlog
      (payload :: rest.1, rest.2)

structure Staging where
  selected : List Payload
  rejected : List Payload
  backlog : List Payload
  backlogIds : List String
  capacity : Nat
  used : Nat
  deriving DecidableEq

/-- One payload of `recv_reqs`. -/
def stageOne (cfg : Config) (maxPending : Nat) (s : State) (acc : Staging) (payload : Payload) : Staging :=
  let r := payload.requestId
  if inProgress s r || r ∈ acc.backlogIds || r ∈ acc.selected.map (·.requestId) then acc
  else if cfg.maxQueuedRequests.any (· ≤ acc.used) then { acc with rejected := acc.rejected ++ [payload] }
  else if 0 < acc.capacity then
    { acc with selected := acc.selected ++ [payload], capacity := acc.capacity - 1, used := acc.used + 1 }
  else if (backlogLimit cfg maxPending).any (· ≤ acc.backlog.length) then
    { acc with rejected := acc.rejected ++ [payload] }
  else
    { acc with
      backlog := acc.backlog ++ [payload]
      backlogIds := acc.backlogIds ++ [r]
      used := acc.used + 1 }

/-- What the backlog gives, before `recv_reqs` is looked at. -/
def stagingStart (maxPending : Nat) (s : State) : Staging :=
  let capacity := maxPending - s.builds.length
  let taken := takeBacklog s capacity s.backlog
  let popped := (s.backlog.take (s.backlog.length - taken.2.length)).map (·.requestId)
  { selected := taken.1
    rejected := []
    backlog := taken.2
    backlogIds := (s.backlog.map (·.requestId)).filter (· ∉ popped)
    capacity := capacity - taken.1.length
    used := queuedAdmissionCount { s with backlog := taken.2 } + taken.1.length }

/-- The payloads that are staged when the queue is not full. -/
def staged (cfg : Config) (maxPending : Nat) (s : State) (recvReqs : List Payload) : Staging :=
  recvReqs.foldl (stageOne cfg maxPending s) (stagingStart maxPending s)

/-- `_stage_request_build_payloads`: the selected payloads, and the rejected ones. -/
def stageRequestBuildPayloads (cfg : Config) (s : State) (recvReqs : List Payload) :
    State × List Payload × List Payload :=
  match cfg.requestBuildMaxPending with
  | none => (s, recvReqs, [])
  | some maxPending =>
    if waitingQueueIsFull cfg s then
      ({ s with backlog := [] }, [],
        s.backlog.filter (fun p => p.requestId ∉ s.aborted) ++
          recvReqs.filter fun p => p.requestId ∉ s.aborted ∧ ¬ s.builds.contains p.requestId)
    else
      let acc := staged cfg maxPending s recvReqs
      ({ s with backlog := acc.backlog }, acc.selected, acc.rejected)

/-! ### Building -/

/-- What the data is handed when its request is enqueued: the payload's share, then what is
left in the ingress entry. -/
def initialHanded (payload : Payload) (pendingStreamDone : Bool) (ingress : Option Ingress) : List Handed :=
  let ingress := ingress.getD {}
  payload.prefetchedChunks.map .chunk ++ (if payload.prefetchedStreamDone then [.done] else []) ++
    (ingress.chunks.map .chunk ++ if ingress.done && !pendingStreamDone then [.done] else [])

/-- A new request at the end of the waiting queue. -/
def enqueue (s : State) (r : String) (handed : List Handed) : State :=
  { s with
    waiting := s.waiting ++ [s.reqCount]
    batches := s.batches.setReq s.reqCount fun _ => { rid := r, omniData := some s.data.length }
    data := s.data ++ [handed]
    reqCount := s.reqCount + 1 }

/-- `_enqueue_built_request`. -/
def enqueueBuiltRequest (cfg : Config) (s : State) (payload : Payload) (pendingStreamDone : Bool) (value : Built)
    (answers : Answers) : State :=
  let r := payload.requestId
  let s := { s with deferred := s.deferred.pop r }
  if value.limitsError || cfg.maxReqLen < value.inputLen + value.maxNewTokens then fail cfg s r true
  else
    let handed := initialHanded payload pendingStreamDone (s.ingress.get? r)
    let s := { s with ingress := s.ingress.pop r }
    if r ∈ s.aborted then s
    else if !answers.prioritized || answers.overLimit then upstreamAbort cfg s r
    else enqueue s r handed

/-- `_admit_or_defer_built_request`. -/
def admitOrDeferBuiltRequest (cfg : Config) (s : State) (payload : Payload) (pendingStreamDone : Bool)
    (result : BuildResult) (answers : Answers) : State :=
  let r := payload.requestId
  match result with
  | .failed => fail cfg s r true
  | .built value => enqueueBuiltRequest cfg s payload pendingStreamDone value answers
  | .deferred value =>
    if r ∈ s.aborted then s
    else
      match answers.ready with
      | none => { s with admissions := s.admissions.set r { payload, pendingStreamDone, value } }
      | some false => fail cfg s r true
      | some true => enqueueBuiltRequest cfg s payload pendingStreamDone value answers

/-- One turn of `_drain_request_build_results`. -/
def drainRequestBuildResult (cfg : Config) (s : State) (answers : Answers) : State :=
  match s.builds.entries with
  | [] => s
  | (r, build) :: _ =>
    match build.future with
    | none => s
    | some result =>
      let s := { s with builds := s.builds.pop r }
      if r ∈ s.aborted then s
      else admitOrDeferBuiltRequest cfg s build.payload build.pendingStreamDone result answers

/-- One id of `_drain_request_admission_results`, whose `ready` future is done. -/
def drainRequestAdmissionResult (cfg : Config) (s : State) (r : String) (answers : Answers) : State :=
  match s.admissions.get? r with
  | none => s
  | some pending =>
    if answers.ready = none then s
    else
      let s := { s with admissions := s.admissions.pop r }
      if r ∈ s.aborted then s
      else admitOrDeferBuiltRequest cfg s pending.payload pending.pendingStreamDone (.deferred pending.value) answers

/-- The payload with the chunks that wait for it, and the ingress without them. -/
def prefetch (s : State) (payload : Payload) : State × Payload :=
  let r := payload.requestId
  match s.ingress.get? r with
  | none => (s, { payload with prefetchedStreamDone := false })
  | some ingress =>
    ({ s with ingress := s.ingress.set r { ingress with chunks := [] } },
      { payload with
        prefetchedChunks := payload.prefetchedChunks ++ ingress.chunks
        prefetchedStreamDone := ingress.done })

/-- One payload of the loop of `process_input_requests`; `result` is the builder's, where it is
called at once. -/
def processInputRequest (cfg : Config) (s : State) (payload : Payload) (result : BuildResult) (answers : Answers) :
    State :=
  let r := payload.requestId
  if inProgress s r then s
  else if waitingQueueIsFull cfg s then rejectQueueFull cfg s payload
  else
    let (s, payload) := prefetch s payload
    let pendingStreamDone := payload.prefetchedStreamDone
    if !cfg.isRequestBuildReady payload pendingStreamDone then
      { s with deferred := s.deferred.set r payload }
    else if cfg.requestBuildMaxPending.isSome then
      { s with builds := s.builds.set r { payload, pendingStreamDone, future := none } }
    else admitOrDeferBuiltRequest cfg s payload pendingStreamDone result answers

end SglangOmni.Scheduling.Scheduler
