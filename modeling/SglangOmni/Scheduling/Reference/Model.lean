import SglangOmni.Lib.History
import SglangOmni.Scheduling.StageCache

/-! The service that encodes reference inputs: cached, single flight for each key, and in batches.

Every call of `get_or_encode` runs on its own thread. It finds its key in the cache, joins the call that leads the key,
or leads it. A leader encodes itself, or waits for the worker that drains the batch queue; between two sections under
the lock anything else may run, so a call is a phase and every section is one event. The hooks' outcomes come with the
events. Statistics, `close` and what runs before the key is known are left out. -/
namespace SglangOmni.Scheduling.ReferenceEncoder
open Lib StageCache

/-- The settings of a service, with what its hook and its exceptions are. -/
structure Service (A St E : Type) where
  batching : Bool
  maxBatchSize : Nat
  limits : Limits
  sizeFn : St → Nat
  storeArtifact : A → St
  loadArtifact : St → A
  /-- `_fresh_exception`. -/
  freshException : E → E
  /-- `isinstance(exc, Exception)`, not only `BaseException`. -/
  isException : E → Bool
  /-- `isinstance(exc, TimeoutError)`. -/
  isTimeout : E → Bool
  /-- What `Future.result(timeout)` raises. -/
  timeoutError : E

/-- What the hook was asked to encode, and its outcome. -/
inductive Answer (Item A E : Type) where
  | one (item : Item) (outcome : Except E A)
  | batch (items : List Item) (outcome : Except E (List A))

inductive Phase (A St E : Type) where
  /-- In `_encode_leader`, before it calls the hook or puts its item into the queue. -/
  | encoding
  /-- In `future.result` of its queued item. -/
  | queued
  | storing (artifact : A)
  | validating (stored : St)
  | publishing (stored : St) (shouldCache : Bool)
  /-- In the `except` clause, before the lock. -/
  | failing (e : E)
  /-- After the lock, before `set_result`. -/
  | resolving (stored : St)
  /-- After the lock of the `except` clause, before `set_exception`. -/
  | rejecting (e : E)
  /-- In `follower_fut.result`. -/
  | following (leader : Nat)
  | done (outcome : Except E A)
  deriving DecidableEq

/-- A call, with the future that it leads and the future of its queued item. -/
structure Call (Item K A St E : Type) where
  item : Item
  key : Option K
  phase : Phase A St E
  /-- The leader that the call joined. -/
  joined : Option Nat := none
  /-- The wait for the leader reached `timeout_s`. -/
  expired : Bool := false
  leaderFuture : Option (Except E St) := none
  batchFuture : Option (Except E A) := none

/-- The batch worker. A queue entry is an item with the call whose future it comes with. -/
inductive Worker (Item A E : Type) where
  | idle
  | collecting (batch : List (Item × Nat))
  | encoding (batch : List (Item × Nat))
  /-- Encodes item by item, with the results so far. -/
  | retrying (batch : List (Item × Nat)) (results : List (Except E A))
  | delivering (pairs : List ((Item × Nat) × Except E A))

structure State (Item K A St E : Type) where
  calls : Nat → Option (Call Item K A St E) := fun _ => none
  inflight : Dict K Nat := ∅
  cache : Cache K St := Cache.empty
  batchQueue : List (Item × Nat) := []
  worker : Worker Item A E := .idle
  /-- Every answer of the hook. -/
  answers : List (Answer Item A E) := []
  /-- Every item, key and stored artifact that `revalidate` returned true for. -/
  validated : List (Item × K × St) := []

/-- The steps of a call after its first section under the lock. -/
inductive CallEvent (A E : Type) where
  | encodeOne (outcome : Except E A)
  | enqueue
  | receive
  /-- The wait for the queued item, or for the leader, reaches `timeout_s`. -/
  | timeout
  /-- `store_artifact` returns, or raises. -/
  | store (raised : Option E)
  | revalidate (outcome : Except E Bool)
  /-- The section under the lock, in which `cache.put` may raise. -/
  | publish (raised : Option E)
  | fail
  /-- `set_result` or `set_exception`, and the end of the call. -/
  | settle
  | follow

inductive WorkerEvent (A E : Type) where
  /-- The worker takes an entry of the queue. -/
  | take
  /-- The batch is full, or its deadline has passed. -/
  | startBatch
  | encodeBatch (outcome : Except E (List A))
  | retryOne (outcome : Except E A)
  /-- The worker sets the next future, or goes back to the queue. -/
  | deliver

inductive Event (Item K A E : Type) where
  /-- `get_or_encode` of an item and its key, until the lock is released. -/
  | call (c : Nat) (item : Item) (key : Option K)
  | onCall (c : Nat) (e : CallEvent A E)
  | onWorker (e : WorkerEvent A E)

variable {Item K A St E : Type}

/-- Whether the call is in the guarded section of a leader (or in `_encode_leader` without a key). -/
def Phase.guarded : Phase A St E → Bool
  | .encoding | .queued | .storing _ | .validating _ | .publishing _ _ | .failing _ => true
  | _ => false

/-- Whether a leader still has to complete its future. -/
def Phase.leading : Phase A St E → Bool
  | .resolving _ | .rejecting _ => true
  | p => p.guarded

def Phase.isFollowing : Phase A St E → Bool
  | .following _ => true
  | _ => false

/-- The entries that the worker has taken and not answered yet. -/
def Worker.holds : Worker Item A E → List (Item × Nat)
  | .idle => []
  | .collecting batch | .encoding batch | .retrying batch _ => batch
  | .delivering pairs => pairs.map Prod.fst

namespace Service
variable (V : Service A St E)

/-- Where the outcome of `_encode_leader` takes a call. -/
def encoded (key : Option K) (outcome : Except E A) : Phase A St E :=
  match key, outcome with
  | none, _ => .done outcome
  | some _, .ok a => .storing a
  | some _, .error e => .failing e

/-- What a future gets from the worker. -/
def delivered : Except E A → Except E A
  | .ok a => .ok a
  | .error e => .error (V.freshException e)

/-- What a follower does with the outcome of its leader's future. -/
def followed : Except E St → Except E A
  | .ok st => .ok (V.loadArtifact st)
  | .error e => .error (if V.isTimeout e then e else V.freshException e)

/-- What a leader does with the outcome that it gives its own future. -/
def settled : Except E St → Except E A
  | .ok st => .ok (V.loadArtifact st)
  | .error e => .error e

end Service

namespace State
variable [DecidableEq K] (V : Service A St E)

def setCall (s : State Item K A St E) (c : Nat) (call : Call Item K A St E) : State Item K A St E :=
  { s with calls := Function.update s.calls c (some call) }

/-- `get_or_encode` until the lock is released. -/
def startCall (s : State Item K A St E) (c : Nat) (item : Item) : Option K → State Item K A St E
  | none => s.setCall c { item, key := none, phase := .encoding }
  | some k =>
    let found := s.cache.get k
    match found.1, s.inflight.get? k with
    | some st, _ =>
      { s.setCall c { item, key := some k, phase := .done (.ok (V.loadArtifact st)) } with cache := found.2 }
    | none, some l => s.setCall c { item, key := some k, phase := .following l, joined := some l }
    | none, none =>
      { s.setCall c { item, key := some k, phase := .encoding } with inflight := s.inflight.set k c }

/-- `_inflight.pop(cache_key, None)`. -/
def popInflight (s : State Item K A St E) : Option K → State Item K A St E
  | none => s
  | some k => { s with inflight := s.inflight.pop k }

def stepCall (s : State Item K A St E) (c : Nat) (call : Call Item K A St E) : CallEvent A E → State Item K A St E
  | .encodeOne outcome =>
    match call.phase with
    | .encoding =>
      if V.batching then s
      else
        { s.setCall c { call with phase := Service.encoded call.key outcome } with
          answers := .one call.item outcome :: s.answers }
    | _ => s
  | .enqueue =>
    match call.phase with
    | .encoding =>
      if V.batching then
        { s.setCall c { call with phase := .queued } with batchQueue := s.batchQueue ++ [(call.item, c)] }
      else s
    | _ => s
  | .receive =>
    match call.phase, call.batchFuture with
    | .queued, some outcome => s.setCall c { call with phase := Service.encoded call.key outcome }
    | _, _ => s
  | .timeout =>
    match call.phase with
    | .queued =>
      if call.batchFuture.isNone then
        s.setCall c { call with phase := Service.encoded call.key (.error V.timeoutError) }
      else s
    | .following l =>
      if ((s.calls l).bind Call.leaderFuture).isNone then
        s.setCall c { call with phase := .done (.error V.timeoutError), expired := true }
      else s
    | _ => s
  | .store raised =>
    match call.phase with
    | .storing a =>
      s.setCall c { call with phase := raised.elim (.validating (V.storeArtifact a)) .failing }
    | _ => s
  | .revalidate outcome =>
    match call.phase, call.key, outcome with
    | .validating st, some k, .ok true =>
      { s.setCall c { call with phase := .publishing st true } with validated := (call.item, k, st) :: s.validated }
    | .validating st, some _, .ok false => s.setCall c { call with phase := .publishing st false }
    | .validating _, some _, .error e => s.setCall c { call with phase := .failing e }
    | _, _, _ => s
  | .publish raised =>
    match call.phase, call.key with
    | .publishing st shouldCache, some k =>
      match shouldCache, raised with
      | true, some e => s.setCall c { call with phase := .failing e }
      | true, none =>
        { (s.setCall c { call with phase := .resolving st }).popInflight (some k) with
          cache := s.cache.put V.limits V.sizeFn k st }
      | false, _ => (s.setCall c { call with phase := .resolving st }).popInflight (some k)
    | _, _ => s
  | .fail =>
    match call.phase with
    | .failing e => (s.setCall c { call with phase := .rejecting e }).popInflight call.key
    | _ => s
  | .settle =>
    match call.phase with
    | .resolving st =>
      s.setCall c { call with phase := .done (V.settled (.ok st)), leaderFuture := some (.ok st) }
    | .rejecting e =>
      s.setCall c { call with phase := .done (V.settled (.error e)), leaderFuture := some (.error e) }
    | _ => s
  | .follow =>
    match call.phase with
    | .following l =>
      match (s.calls l).bind Call.leaderFuture with
      | some outcome => s.setCall c { call with phase := .done (V.followed outcome) }
      | none => s
    | _ => s

/-- `_batch_worker`. -/
def stepWorker (s : State Item K A St E) : WorkerEvent A E → State Item K A St E
  | .take =>
    match s.worker, s.batchQueue with
    | .idle, entry :: rest => { s with worker := .collecting [entry], batchQueue := rest }
    | .collecting batch, entry :: rest =>
      if batch.length < V.maxBatchSize then { s with worker := .collecting (batch ++ [entry]), batchQueue := rest }
      else s
    | _, _ => s
  | .startBatch =>
    match s.worker with
    | .collecting batch => { s with worker := .encoding batch }
    | _ => s
  | .encodeBatch outcome =>
    match s.worker with
    | .encoding batch =>
      let asked := { s with answers := .batch (batch.map Prod.fst) outcome :: s.answers }
      match outcome with
      | .ok artifacts =>
        -- Another number of artifacts raises a `RuntimeError` that is caught here.
        if artifacts.length = batch.length then { asked with worker := .delivering (batch.zip (artifacts.map .ok)) }
        else { asked with worker := .retrying batch [] }
      | .error e =>
        if V.isException e then { asked with worker := .retrying batch [] }
        else { asked with worker := .delivering (batch.zip (List.replicate batch.length (.error e))) }
    | _ => s
  | .retryOne outcome =>
    match s.worker with
    | .retrying batch results =>
      match batch[results.length]? with
      | none => s
      | some entry =>
        let asked := { s with answers := .one entry.1 outcome :: s.answers }
        match outcome with
        | .ok a => { asked with worker := .retrying batch (results ++ [.ok a]) }
        | .error e =>
          if V.isException e then { asked with worker := .retrying batch (results ++ [.error e]) }
          -- Out of `_encode_batch`: every item of the batch fails with it.
          else { asked with worker := .delivering (batch.zip (List.replicate batch.length (.error e))) }
    | _ => s
  | .deliver =>
    match s.worker with
    | .retrying batch results =>
      if results.length = batch.length then { s with worker := .delivering (batch.zip results) } else s
    | .delivering [] => { s with worker := .idle }
    | .delivering ((entry, outcome) :: rest) =>
      match s.calls entry.2 with
      | none => s
      | some call =>
        { s.setCall entry.2 { call with batchFuture := some (V.delivered outcome) } with worker := .delivering rest }
    | _ => s

def step (s : State Item K A St E) : Event Item K A E → State Item K A St E
  | .call c item key =>
    match s.calls c with
    | none => s.startCall V c item key
    | some _ => s
  | .onCall c e =>
    match s.calls c with
    | none => s
    | some call => s.stepCall V c call e
  | .onWorker e => s.stepWorker V e

def runFrom (s : State Item K A St E) (es : List (Event Item K A E)) : State Item K A St E := run (step V) s es

/-- The service after a history of calls, hook outcomes and steps of the worker. -/
def runs (es : List (Event Item K A E)) : State Item K A St E := runFrom V {} es

end State
end SglangOmni.Scheduling.ReferenceEncoder
