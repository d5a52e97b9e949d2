import SglangOmni.Scheduling.Scheduler.Model

/-! The scheduler's two loops.

The lookahead loop is the normal one with three more moves: a decode batch may be launched
instead of run, the step before it is then resolved, and a launched step is flushed where
the loop cannot go on beside it. A loop without lookahead never launches. -/
namespace SglangOmni.Scheduling.Scheduler
open Lib

/-! ### Output -/

/-- What the model runner did with a step: it raised, it had nothing, or it stepped. -/
inductive Outcome where
  | raised
  | nothing
  | stepped
  deriving DecidableEq

/-- A step of the model: how it went, how many stream messages each request yields, and which
requests upstream finds finished with it. -/
structure Step where
  outcome : Outcome
  yields : Nat → Nat
  finishing : List Nat

def streamMessages (r : String) (n : Nat) : List OutgoingMessage := List.replicate n ⟨r, .stream⟩

/-- `_emit_stream_output`. -/
def emitStreamOutput (s : State) (rows : List Nat) (skipRids : List String) (yields : Nat → Nat) : State :=
  { s with
    outbox := s.outbox ++ rows.flatMap fun q =>
      let r := (s.batches.req q).rid
      if r ∈ skipRids ∨ r ∈ s.aborted then [] else streamMessages r (yields q) }

/-- A request that upstream finds finished: an abort that was waiting for it comes first. -/
def Req.finish (q : Req) : Req :=
  if q.finished then q else { q with finishedReason := some (if q.toFinish then .abort else .done) }

/-- `process_batch_result`, up to its call of `stream_output`. -/
def processBatchResult (s : State) (reqs finishing : List Nat) : State :=
  { s with
    batches :=
      { s.batches with
        req := fun q => if q ∈ reqs ∧ q ∈ finishing then Req.finish (s.batches.req q) else s.batches.req q }
    streaming := reqs }

/-- `_remember_completed_request`. -/
def rememberCompletedRequest (s : State) (r : String) : State :=
  if r ∈ s.completed then s
  else
    { s with
      completed := (if completedLimit ≤ s.completed.length then s.completed.drop 1 else s.completed) ++ [r]
      ingress := s.ingress.pop r }

/-- `_close_completed_request`. -/
def closeCompletedRequest (s : State) (q : Nat) : State :=
  rememberCompletedRequest { s with batches := s.batches.detachRequestData q } (s.batches.req q).rid

/-- A request of `stream_output`, up to the claim. -/
def streamOutput (s : State) : State :=
  match s.streaming with
  | [] => s
  | q :: rest =>
    let s := { s with streaming := rest }
    let req := s.batches.req q
    if !req.finished then s
    else if req.finishedReason = some .abort ∨ req.rid ∈ s.aborted then
      { s with batches := s.batches.detachRequestData q }
    else if req.omniTerminalClaimed then s
    else if req.omniData = none then closeCompletedRequest s q
    else
      { s with
        batches := s.batches.setReq q fun q => { q with omniTerminalClaimed := true }
        claimed := some q }

/-- The rest of it: the last chunks, the cleanup, and the result, or an error when the result
could not be made. -/
def terminalOutput (cfg : Config) (s : State) (yields : Nat) (ok : Bool) : State :=
  match s.claimed with
  | none => s
  | some q =>
    let r := (s.batches.req q).rid
    let s := { s with claimed := none, outbox := s.outbox ++ streamMessages r yields }
    let s := closeCompletedRequest s q
    if ok then { s with outbox := s.outbox ++ [⟨r, .result⟩] } else emitRequestError cfg s r

/-! ### Batches -/

/-- What upstream's `get_next_batch_to_run` makes of the queue and the batches. -/
structure Plan where
  waiting : List Nat
  reqs : Nat → List Nat
  runningBatch : Nat
  batch : Option Nat
  isRetracted : Nat → Bool
  chunkedReq : Option Nat

/-- `get_next_batch_to_run`, and `cur_batch`. The snapshot in flight is nobody else's. -/
def getNextBatchToRun (s : State) (u : Plan) : State :=
  { s with
    waiting := u.waiting
    batches :=
      { s.batches with
        req := fun q => { s.batches.req q with isRetracted := u.isRetracted q }
        reqs := fun b => if some b = s.batches.asyncPending.map (·.batch) then s.batches.reqs b else u.reqs b
        runningBatch := u.runningBatch
        curBatch := u.batch }
    batchCount := max s.batchCount (max (u.runningBatch + 1) ((u.batch.map (· + 1)).getD 0))
    chunkedReq := u.chunkedReq
    phase := .planned false }

def curReqs (s : State) : List Nat := (s.batches.curBatch.map s.batches.reqs).getD []

def leftOver (s : State) (q : Nat) : Bool := (s.batches.req q).finished || (s.batches.req q).isRetracted

/-- `_drop_stale_overrun`. -/
def dropStaleOverrun (s : State) : State :=
  match s.batches.curBatch with
  | none => s
  | some b =>
    let reqs := s.batches.reqs b
    if !reqs.any (leftOver s) then s
    else
      let kept := reqs.filter fun q => !leftOver s q
      { s with
        batches :=
          { s.batches with
            reqs := Function.update s.batches.reqs b kept
            curBatch := if kept = [] then none else some b } }

/-- `run_batch` and, when it stepped, `process_batch_result`. -/
def runBatch (cfg : Config) (s : State) (step : Step) : State :=
  match s.batches.curBatch with
  | none => s
  | some b =>
    match step.outcome with
    | .stepped => processBatchResult (emitStreamOutput s (s.batches.reqs b) [] step.yields)
      (s.batches.reqs b) step.finishing
    | _ => handleBatchFailure cfg s (s.batches.reqs b)

/-- `_resolve_and_process`; what it raises goes to `_handle_batch_failure`. -/
def resolveAndProcess (cfg : Config) (s : State) (pending : Pending) (step : Step) : State :=
  let reqs := s.batches.reqs pending.batch
  let kept := reqs.filter fun q => !leftOver s q
  let skipRids := (reqs.filter (leftOver s)).map fun q => (s.batches.req q).rid
  match step.outcome with
  | .raised => handleBatchFailure cfg s reqs
  | .nothing => s
  | .stepped =>
    let s := emitStreamOutput s pending.rows skipRids step.yields
    let s := { s with batches := { s.batches with reqs := Function.update s.batches.reqs pending.batch kept } }
    processBatchResult s kept step.finishing

/-- `_resolve_pending_async`. -/
def resolvePendingAsync (cfg : Config) (s : State) (step : Step) : State :=
  match s.batches.asyncPending with
  | none => s
  | some pending =>
    resolveAndProcess cfg { s with batches := { s.batches with asyncPending := none } } pending step

/-- `_run_batch_launch`, and the launched step kept as the pending one. -/
def runBatchLaunch (cfg : Config) (s : State) (b : Nat) (ok : Bool) : State :=
  if !ok then { handleBatchFailure cfg s (s.batches.reqs b) with phase := .ended }
  else
    { s with
      batches :=
        { s.batches with
          reqs := Function.update s.batches.reqs s.batchCount (s.batches.reqs b)
          asyncPending := some { batch := s.batchCount, rows := s.batches.reqs b } }
      batchCount := s.batchCount + 1
      phase :=
        match s.batches.asyncPending with
        | none => .ended
        | some prev => .resolving prev }

/-! ### Administration -/

/-- `_active_request_ids`; the order in which they are aborted is their sorted one. -/
def activeRequestIds (s : State) : List String :=
  (s.builds.keys ++ s.admissions.keys ++ (s.backlog.map (·.requestId)).filter (· ∉ s.aborted) ++
    s.waiting.map (fun q => (s.batches.req q).rid) ++
    (s.batches.listed.filter fun q => !(s.batches.req q).finished).map fun q => (s.batches.req q).rid).mergeSort.dedup

/-- `_abort_all_requests`. -/
def abortAllRequests (s : State) : State := (activeRequestIds s).foldl (fun s r => abort s r false) s

/-- What `_retract_running_requests` takes back. -/
def retracted (s : State) : List Nat :=
  (s.batches.reqs s.batches.runningBatch).filter fun q => !(s.batches.req q).finished

/-- `_retract_running_requests`, up to the requests that upstream refuses to queue again. -/
def requeueRunningRequests (s : State) (refused : List Nat) : State :=
  { s with
    waiting := s.waiting ++ (retracted s).filter (· ∉ refused)
    batches :=
      { s.batches with
        req := fun q => if q ∈ retracted s then { s.batches.req q with isRetracted := true } else s.batches.req q
        reqs := Function.update s.batches.reqs s.batches.runningBatch [] }
    -- with nobody to take back the code returns before it forgets the chunked request
    chunkedReq := if retracted s = [] then s.chunkedReq else none }

/-- `_retract_running_requests`. -/
def retractRunningRequests (cfg : Config) (s : State) (refused : List Nat) : State :=
  (((retracted s).filter (· ∈ refused)).map fun q => (s.batches.req q).rid).foldl (upstreamAbort cfg)
    (requeueRunningRequests s refused)

/-! ### Events -/

inductive Event where
  | recv (msgs : List IncomingMessage)
  | takeDeferred (order : List String)
  | drainBuild (answers : Answers)
  | drainAdmission (requestId : String) (answers : Answers)
  | stage
  | reject
  | process (result : BuildResult) (answers : Answers)
  | admitted
  | pausedAgain
  | upstreamAbort (requestId : String)
  | plan (u : Plan)
  | launch (ok : Bool)
  | resolve (step : Step)
  | run (step : Step)
  | flush (step : Step)
  | finish
  | streamOutput
  | terminalOutput (yields : Nat) (ok : Bool)
  | pause (paused : Bool)
  | abortAll
  | retract (refused : List Nat)
  | buildDone (requestId : String) (result : BuildResult)
  | stageAbort (requestId : String)

/-- The scheduler thread is not inside `stream_output`. -/
def atLoop (s : State) : Bool := s.streaming = [] && s.claimed = none

/-- The scheduler thread drains its admin queue here. -/
def atAdmin (s : State) : Bool :=
  match s.phase with
  | .top => atLoop s
  | .admitted => atLoop s && s.paused
  | _ => false

/-- The scheduler thread is in `process_input_requests`, before or after its loop. -/
def atDrain (s : State) : Bool :=
  match s.phase with
  | .taken _ | .admitted => true
  | _ => false

/-- One step of the scheduler thread, of a builder, or of the stage; an event that cannot
happen leaves the state as it is. -/
def step (cfg : Config) (s : State) : Event → State
  | .recv msgs =>
    if s.phase = .top && atLoop s then
      let (s, recvReqs) := recvRequests cfg s msgs
      { s with phase := .received recvReqs }
    else s
  | .takeDeferred order =>
    match s.phase with
    | .received recvReqs =>
      let (s, deferred) := takeDeferredRequestPayloads s order
      { s with phase := .taken (recvReqs ++ deferred) }
    | _ => s
  | .drainBuild answers => if atDrain s then drainRequestBuildResult cfg s answers else s
  | .drainAdmission r answers => if atDrain s then drainRequestAdmissionResult cfg s r answers else s
  | .stage =>
    match s.phase with
    | .taken recvReqs =>
      let (s, selected, rejected) := stageRequestBuildPayloads cfg s recvReqs
      { s with phase := .admitting rejected selected }
    | _ => s
  | .reject =>
    match s.phase with
    | .admitting (payload :: rejected) selected =>
      { rejectQueueFull cfg s payload with phase := .admitting rejected selected }
    | _ => s
  | .process result answers =>
    match s.phase with
    | .admitting [] (payload :: selected) =>
      { processInputRequest cfg s payload result answers with phase := .admitting [] selected }
    | _ => s
  | .admitted => if s.phase = .admitting [] [] then { s with phase := .admitted } else s
  | .pausedAgain => if s.phase = .admitted && s.paused && atLoop s then { s with phase := .top } else s
  | .upstreamAbort r => if s.phase = .admitted && atLoop s then upstreamAbort cfg s r else s
  | .plan u => if s.phase = .admitted && !s.paused && atLoop s then getNextBatchToRun s u else s
  | .launch ok =>
    match s.phase, s.batches.curBatch with
    | .planned false, some b => if atLoop s then runBatchLaunch cfg s b ok else s
    | _, _ => s
  | .resolve step =>
    match s.phase with
    | .resolving prev => { resolveAndProcess cfg s prev step with phase := .ended }
    | _ => s
  | .run step =>
    match s.phase with
    | .planned flushed =>
      if atLoop s && s.batches.asyncPending = none then
        { runBatch cfg (if flushed then dropStaleOverrun s else s) step with phase := .ended }
      else s
    | _ => s
  | .flush step =>
    match s.phase with
    | .top | .admitted => if atLoop s then resolvePendingAsync cfg s step else s
    | .planned false =>
      if atLoop s && s.batches.asyncPending.isSome then
        { resolvePendingAsync cfg s step with phase := .planned true }
      else s
    | _ => s
  | .finish =>
    if s.phase = .ended && atLoop s then
      { s with batches := { s.batches with lastBatch := s.batches.curBatch }, phase := .top }
    else s
  | .streamOutput => if s.claimed = none then streamOutput s else s
  | .terminalOutput yields ok => terminalOutput cfg s yields ok
  | .pause paused => if atAdmin s then { s with paused } else s
  | .abortAll => if atAdmin s then abortAllRequests s else s
  | .retract refused => if atAdmin s then retractRunningRequests cfg s refused else s
  | .buildDone r result =>
    match s.builds.get? r with
    | some build =>
      if build.future = none then { s with builds := s.builds.set r { build with future := some result } } else s
    | none => s
  | .stageAbort r => { abort s r true with stageAborts := s.stageAborts ++ [r] }

/-- What an event does where it can happen. -/
inductive Fires (cfg : Config) (s : State) : Event → State → Prop where
  | recv (msgs : List IncomingMessage) (top : s.phase = .top) (loop : atLoop s = true) :
    Fires cfg s (.recv msgs) { (recvRequests cfg s msgs).1 with phase := .received (recvRequests cfg s msgs).2 }
  | takeDeferred (order : List String) (recvReqs : List Payload) (received : s.phase = .received recvReqs) :
    Fires cfg s (.takeDeferred order)
      { (takeDeferredRequestPayloads s order).1 with
        phase := .taken (recvReqs ++ (takeDeferredRequestPayloads s order).2) }
  | drainBuild (answers : Answers) (drain : atDrain s = true) :
    Fires cfg s (.drainBuild answers) (drainRequestBuildResult cfg s answers)
  | drainAdmission (r : String) (answers : Answers) (drain : atDrain s = true) :
    Fires cfg s (.drainAdmission r answers) (drainRequestAdmissionResult cfg s r answers)
  | stage (recvReqs : List Payload) (taken : s.phase = .taken recvReqs) :
    Fires cfg s .stage
      { (stageRequestBuildPayloads cfg s recvReqs).1 with
        phase := .admitting (stageRequestBuildPayloads cfg s recvReqs).2.2
          (stageRequestBuildPayloads cfg s recvReqs).2.1 }
  | reject (payload : Payload) (rejected selected : List Payload)
      (admitting : s.phase = .admitting (payload :: rejected) selected) :
    Fires cfg s .reject { rejectQueueFull cfg s payload with phase := .admitting rejected selected }
  | process (result : BuildResult) (answers : Answers) (payload : Payload) (selected : List Payload)
      (admitting : s.phase = .admitting [] (payload :: selected)) :
    Fires cfg s (.process result answers)
      { processInputRequest cfg s payload result answers with phase := .admitting [] selected }
  | admitted (admitting : s.phase = .admitting [] []) : Fires cfg s .admitted { s with phase := .admitted }
  | pausedAgain (admitted : s.phase = .admitted) : Fires cfg s .pausedAgain { s with phase := .top }
  | upstreamAbort (r : String) : Fires cfg s (.upstreamAbort r) (upstreamAbort cfg s r)
  | plan (u : Plan) (admitted : s.phase = .admitted) : Fires cfg s (.plan u) (getNextBatchToRun s u)
  | launch (ok : Bool) (b : Nat) (planned : s.phase = .planned false) (cur : s.batches.curBatch = some b)
      (loop : atLoop s = true) : Fires cfg s (.launch ok) (runBatchLaunch cfg s b ok)
  | resolve (step : Step) (prev : Pending) (resolving : s.phase = .resolving prev) :
    Fires cfg s (.resolve step) { resolveAndProcess cfg s prev step with phase := .ended }
  | run (step : Step) (flushed : Bool) (planned : s.phase = .planned flushed) (loop : atLoop s = true) :
    Fires cfg s (.run step) { runBatch cfg (if flushed then dropStaleOverrun s else s) step with phase := .ended }
  | flush (step : Step) (between : s.phase = .top ∨ s.phase = .admitted) (loop : atLoop s = true) :
    Fires cfg s (.flush step) (resolvePendingAsync cfg s step)
  | flushPlanned (step : Step) (planned : s.phase = .planned false) (loop : atLoop s = true) :
    Fires cfg s (.flush step) { resolvePendingAsync cfg s step with phase := .planned true }
  | finish (ended : s.phase = .ended) :
    Fires cfg s .finish { s with batches := { s.batches with lastBatch := s.batches.curBatch }, phase := .top }
  | streamOutput (unclaimed : s.claimed = none) : Fires cfg s .streamOutput (streamOutput s)
  | terminalOutput (yields : Nat) (ok : Bool) : Fires cfg s (.terminalOutput yields ok) (terminalOutput cfg s yields ok)
  | pause (paused : Bool) : Fires cfg s (.pause paused) { s with paused }
  | abortAll : Fires cfg s .abortAll (abortAllRequests s)
  | retract (refused : List Nat) (admin : atAdmin s = true) :
    Fires cfg s (.retract refused) (retractRunningRequests cfg s refused)
  | buildDone (r : String) (result : BuildResult) (build : PendingBuild) (building : s.builds.get? r = some build) :
    Fires cfg s (.buildDone r result) { s with builds := s.builds.set r { build with future := some result } }
  | stageAbort (r : String) :
    Fires cfg s (.stageAbort r) { abort s r true with stageAborts := s.stageAborts ++ [r] }

/-- An event leaves the state as it is, or it can happen. -/
theorem step_rule {cfg : Config} {s : State} {e : Event} {P : State → Prop} (same : P s)
    (fires : ∀ s', Fires cfg s e s' → P s') : P (step cfg s e) := by
  cases e with
  | recv msgs =>
    simp only [step]
    split
    · next hat =>
      obtain ⟨htop, hloop⟩ := Bool.and_eq_true_iff.mp hat
      exact fires _ (.recv msgs (of_decide_eq_true htop) hloop)
    · exact same
  | takeDeferred order =>
    simp only [step]
    split
    · next recvReqs hphase => exact fires _ (.takeDeferred order recvReqs hphase)
    · exact same
  | drainBuild answers =>
    simp only [step]
    split
    · next hat => exact fires _ (.drainBuild answers hat)
    · exact same
  | drainAdmission r answers =>
    simp only [step]
    split
    · next hat => exact fires _ (.drainAdmission r answers hat)
    · exact same
  | stage =>
    simp only [step]
    split
    · next recvReqs hphase => exact fires _ (.stage recvReqs hphase)
    · exact same
  | reject =>
    simp only [step]
    split
    · next payload rejected selected hphase => exact fires _ (.reject payload rejected selected hphase)
    · exact same
  | process result answers =>
    simp only [step]
    split
    · next payload selected hphase => exact fires _ (.process result answers payload selected hphase)
    · exact same
  | admitted =>
    simp only [step]
    split
    · next hphase => exact fires _ (.admitted hphase)
    · exact same
  | pausedAgain =>
    simp only [step]
    split
    · next hat => exact fires _ (.pausedAgain (by simp_all))
    · exact same
  | upstreamAbort r =>
    simp only [step]
    split
    · exact fires _ (.upstreamAbort r)
    · exact same
  | plan u =>
    simp only [step]
    split
    · next hat => exact fires _ (.plan u (by simp_all))
    · exact same
  | launch ok =>
    simp only [step]
    split
    · next b hphase hb =>
      split
      · next hloop => exact fires _ (.launch ok b hphase hb hloop)
      · exact same
    · exact same
  | resolve step =>
    simp only [Scheduler.step]
    split
    · next prev hphase => exact fires _ (.resolve step prev hphase)
    · exact same
  | run step =>
    simp only [Scheduler.step]
    split
    · next flushed hphase =>
      split
      · next hat => exact fires _ (.run step flushed hphase (Bool.and_eq_true_iff.mp hat).1)
      · exact same
    · exact same
  | flush step =>
    simp only [Scheduler.step]
    split
    · next hphase =>
      split
      · next hloop => exact fires _ (.flush step (.inl hphase) hloop)
      · exact same
    · next hphase =>
      split
      · next hloop => exact fires _ (.flush step (.inr hphase) hloop)
      · exact same
    · next hphase =>
      split
      · next hat => exact fires _ (.flushPlanned step hphase (Bool.and_eq_true_iff.mp hat).1)
      · exact same
    · exact same
  | finish =>
    simp only [step]
    split
    · next hat => exact fires _ (.finish (by simp_all))
    · exact same
  | streamOutput =>
    simp only [step]
    split
    · next hclaimed => exact fires _ (.streamOutput hclaimed)
    · exact same
  | terminalOutput yields ok => exact fires _ (.terminalOutput yields ok)
  | pause paused =>
    simp only [step]
    split
    · exact fires _ (.pause paused)
    · exact same
  | abortAll =>
    simp only [step]
    split
    · exact fires _ .abortAll
    · exact same
  | retract refused =>
    simp only [step]
    split
    · next hat => exact fires _ (.retract refused hat)
    · exact same
  | buildDone r result =>
    simp only [step]
    split
    · next build hbuild =>
      split
      · exact fires _ (.buildDone r result build hbuild)
      · exact same
    · exact same
  | stageAbort r => exact fires _ (.stageAbort r)

/-- The scheduler after a history. -/
def runs (cfg : Config) (es : List Event) : State := Lib.run (step cfg) State.create es

end SglangOmni.Scheduling.Scheduler
